/-
Webserv/CgiFaults.lean

Any output of a CGI program, and what can go wrong with it.

`ParseCgiResponse` answers or refuses; the other exceptions on its way are not thrown,
and no output keeps `OnCgiExecutionFinished` from answering the client.
-/
import Webserv.LoopSteps
import Webserv.CgiFormat

namespace Webserv

/-! ### Out of range -/

/-- `s.substr(pos, n)`. -/
def substr (s : Bytes) (pos n : Nat) : Except Exception Bytes :=
  if pos > s.length then .error .outOfRange else .ok ((s.drop pos).take n)

/-- `StoreHeader`, for the key `Status`: the two parts of the value, by `find` and `substr`. -/
def statusParts (value : Bytes) : Except Exception (Bytes × Bytes) :=
  match Substring.find [SP] value with
  | none => .ok (value, [])
  | some spacePos => do
      let statusStr ← substr value 0 spacePos
      let reasonPhrase ← substr value (spacePos + 1) value.length
      .ok (statusStr, reasonPhrase)

/-- A space that is found is in range. -/
theorem statusParts_eq (value : Bytes) :
    statusParts value =
      .ok (value.takeWhile (· ≠ SP), (value.dropWhile (· ≠ SP)).drop 1) := by
  have hno : ∀ s : Bytes, SP ∉ s → ∀ c ∈ s, decide (c ≠ SP) = true := by
    intro s hs c hc
    rw [decide_eq_true_eq]
    rintro rfl
    exact hs hc
  by_cases hmem : SP ∈ value
  · -- the first space is found, and what follows it is there
    obtain ⟨a, b, rfl, ha⟩ := List.eq_append_cons_of_mem hmem
    have hfind : Substring.find [SP] (a ++ SP :: b) = some a.length := by
      rw [Substring.find_append_of_notMem ha, Substring.find, if_pos ⟨b, rfl⟩]
      exact congrArg some (Nat.zero_add _)
    have hhead : substr (a ++ SP :: b) 0 a.length = .ok a := by
      rw [substr, if_neg (Nat.not_lt_zero _), List.drop_zero, List.take_left]
    have htail : substr (a ++ SP :: b) (a.length + 1) (a ++ SP :: b).length = .ok b := by
      have hdrop : (a ++ SP :: b).drop (a.length + 1) = b := by
        rw [List.drop_append]
        simp
      have hlen : b.length ≤ (a ++ SP :: b).length := by
        rw [List.length_append, List.length_cons]
        omega
      rw [substr, if_neg (by simp), hdrop, List.take_of_length_le hlen]
    rw [statusParts, hfind]
    dsimp only
    rw [hhead, htail, List.takeWhile_append_of_pos (hno a ha),
      List.dropWhile_append_of_pos (hno a ha)]
    simp
    rfl
  · have hfind : Substring.find [SP] value = none := by
      rw [Substring.find_eq_none_iff_infix (List.cons_ne_nil _ _)]
      intro h
      exact hmem (h.subset (List.mem_singleton_self SP))
    have htake : value.takeWhile (· ≠ SP) = value := List.takeWhile_eq_self_iff.mpr (hno value hmem)
    have hdrop : value.dropWhile (· ≠ SP) = [] := List.dropWhile_eq_nil_iff.mpr (hno value hmem)
    rw [statusParts, hfind, htake, hdrop]
    rfl

/-! ### States -/

/-- `OnInternalStateError` is not called: another handler in its place makes no difference. -/
theorem parse_noInternalStateError (cgiOutput : Bytes) (handler : CgiResponseM Unit) :
    (parse { CgiResponseParser.virtuals with onInternalStateError := handler } cgiOutput).run {} =
      (parse CgiResponseParser.virtuals cgiOutput).run {} := by
  rcases happend : stringAppend [] cgiOutput with e | buffer
  · simp only [parse, CgiResponseParser.virtuals, EStateM.run_bind, EStateM.run_get, happend]
    rfl
  · have hrun := advanceCgiHeader_run { buffer := buffer }
    simp only [parse, parseFuel, parseLoop, CgiResponseParser.virtuals, EStateM.run_bind,
      EStateM.run_get, happend, EStateM.run_modify]
    rw [hrun]
    dsimp only
    rcases findEndOfHeader false buffer with - | i
    · rfl
    · dsimp only
      -- each phase leaves the state that the loop looks for
      rcases (storeCgiHeaderLines (buffer.length + 1) buffer 0).run { buffer := buffer } with
        ⟨u, t⟩ | ⟨e, t⟩
      · rfl
      · rfl

/-! ### Every output -/

/-- **Every output of a program** is answered or refused with a status, and the client of
the program gets a response. -/
theorem parseCgiResponse_clean {cgiOutput : Bytes} (hlen : cgiOutput.length ≤ stringMaxSize) :
    ((∃ res, parseCgiResponse cgiOutput = .ok res) ∨
        ∃ status, parseCgiResponse cgiOutput = .error (.responseStatus status)) ∧
      (∀ value, statusParts value =
        .ok (value.takeWhile (· ≠ SP), (value.dropWhile (· ≠ SP)).drop 1)) ∧
      (∀ handler, (parse { CgiResponseParser.virtuals with onInternalStateError := handler }
        cgiOutput).run {} = (parse CgiResponseParser.virtuals cgiOutput).run {}) ∧
      ∀ (c : ClientSocket) (ans : ClientSocket.CgiAnswers),
        (c.onCgiExecutionFinished cgiOutput ans).isSome = true := by
  refine ⟨?_, statusParts_eq, parse_noInternalStateError cgiOutput, fun c ans => ?_⟩
  · rcases hparse : parseCgiResponse cgiOutput with e | res
    · obtain ⟨status, rfl⟩ := parseCgiResponse_throws hlen e hparse
      exact .inr ⟨status, rfl⟩
    · exact .inl ⟨res, rfl⟩
  · obtain ⟨res, -, hres, -⟩ := World.onCgiExecutionFinished_answers c hlen ans
    rw [hres]
    rfl

/-- A NUL in the header, and a line without a separator. -/
theorem parseCgiResponse_clean_nul :
    (∃ res, parseCgiResponse (bytes "Status: -1\r\na\x00b: \n\n") = .ok res) ∨
      ∃ status, parseCgiResponse (bytes "Status: -1\r\na\x00b: \n\n") =
        .error (.responseStatus status) :=
  (parseCgiResponse_clean (by decide)).1

end Webserv
