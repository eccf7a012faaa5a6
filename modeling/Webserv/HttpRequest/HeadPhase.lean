/-
Webserv/HttpRequest/HeadPhase.lean

What every function of the header phase has in common: it ends (the model's fuel
suffices), and it does not touch the members in which the body phase and
`StreamParser` keep their progress.
-/
import Webserv.HttpRequest.Head

namespace Webserv

/-! ### Functions of the header phase -/

/-- The members that the header phase does not assign. -/
def HttpRequest.progress (r : HttpRequest) : Bytes × Nat × ParserState × Bytes × Int × Nat :=
  (r.buffer, r.bufferReadPos, r.state, r.body, r.nextChunkSize, r.maxBodySizeLimit)

/-- The call has ended: with a value, or with an exception of the program. -/
def Ended {α : Type} : EStateM.Result Exception HttpRequest α → Prop
  | .ok _ _ => True
  | .error e _ => e ≠ .diverges

/-- A function of the header phase: it ends, and leaves the progress alone. -/
def HeadPhase {α : Type} (x : RequestM α) : Prop :=
  ∀ r, (x.run r).state.progress = r.progress ∧ Ended (x.run r)

theorem HeadPhase.bind_of_run {α β : Type} {x : RequestM α} {k : α → RequestM β}
    (hx : HeadPhase x) (hk : ∀ a r s, x.run r = .ok a s → HeadPhase (k a)) :
    HeadPhase (x >>= k) := by
  intro r
  obtain ⟨hprogress, hends⟩ := hx r
  rw [EStateM.run_bind]
  rcases h : x.run r with ⟨a, s⟩ | ⟨e, s⟩
  · rw [h] at hprogress
    exact ⟨(hk a r s h s).1.trans hprogress, (hk a r s h s).2⟩
  · rw [h] at hprogress hends
    exact ⟨hprogress, hends⟩

theorem HeadPhase.bind {α β : Type} {x : RequestM α} {k : α → RequestM β} (hx : HeadPhase x)
    (hk : ∀ a, HeadPhase (k a)) : HeadPhase (x >>= k) :=
  hx.bind_of_run fun a _ _ _ => hk a

theorem HeadPhase.ite {α : Type} {c : Prop} [Decidable c] {x y : RequestM α} (hx : HeadPhase x)
    (hy : HeadPhase y) : HeadPhase (if c then x else y) := by
  split
  · exact hx
  · exact hy

theorem HeadPhase.pure {α : Type} (a : α) : HeadPhase (pure a) := fun _ => ⟨rfl, trivial⟩

theorem HeadPhase.throwStatus {α : Type} (status : Status) :
    HeadPhase (throwStatus status : RequestM α) := fun _ => ⟨rfl, nofun⟩

theorem HeadPhase.modify {f : HttpRequest → HttpRequest}
    (hf : ∀ r, (f r).progress = r.progress) : HeadPhase (modify f) := fun r => ⟨hf r, trivial⟩

theorem HeadPhase.get : HeadPhase get := fun _ => ⟨rfl, trivial⟩

theorem HeadPhase.call_bind {α β : Type} {x : Except Exception α} {k : α → RequestM β}
    (hx : x ≠ .error .diverges) (hk : ∀ a, x = .ok a → HeadPhase (k a)) :
    HeadPhase (call x >>= k) := by
  intro r
  rw [EStateM.run_bind]
  rcases x with e | a
  · exact ⟨rfl, fun he => hx (by rw [he])⟩
  · exact hk a rfl r

/-- A computation that throws nothing but statuses. -/
def ThrowsStatus {α : Type} (x : Except Exception α) : Prop :=
  ∀ e, x = .error e → ∃ status, e = .responseStatus status

theorem ThrowsStatus.ok {α : Type} (a : α) : ThrowsStatus (.ok a) := nofun

theorem ThrowsStatus.error {α : Type} (status : Status) :
    ThrowsStatus (.error (.responseStatus status) : Except Exception α) := by
  rintro e ⟨⟩
  exact ⟨status, rfl⟩

theorem ThrowsStatus.ite {α : Type} {c : Prop} [Decidable c] {x y : Except Exception α}
    (hx : ThrowsStatus x) (hy : ThrowsStatus y) : ThrowsStatus (if c then x else y) := by
  split
  · exact hx
  · exact hy

theorem ThrowsStatus.bind {α β : Type} {x : Except Exception α} {f : α → Except Exception β}
    (hx : ThrowsStatus x) (hf : ∀ a, ThrowsStatus (f a)) : ThrowsStatus (x >>= f) := by
  rcases x with e | a
  · intro e' he
    cases he
    exact hx e rfl
  · exact hf a

theorem ThrowsStatus.ends {α : Type} {x : Except Exception α} (hx : ThrowsStatus x) :
    x ≠ .error .diverges := fun h => by
  obtain ⟨status, hstatus⟩ := hx _ h
  cases hstatus

theorem scanUntil_throws {stop : Byte → Bool} {check : Byte → Nat → Except Exception Nat}
    (hcheck : ∀ c n, ThrowsStatus (check c n)) (p : Bytes) (n : Nat) :
    ThrowsStatus (scanUntil stop check p n) := by
  induction p generalizing n with
  | nil => exact .ok _
  | cons c cs ih =>
      exact .ite (.ok _) (.bind (hcheck c n) fun m => .bind (ih m) fun _ => .ok _)

theorem bumpLenOrThrow_throws (total inc maxSize : Nat) :
    ThrowsStatus (bumpLenOrThrow total inc maxSize) := .ite (.error _) (.ok _)

theorem checkHeaderChar_throws (maxSize : Nat) (c : Byte) (n : Nat) :
    ThrowsStatus (checkHeaderChar maxSize c n) :=
  .ite (.error _) (bumpLenOrThrow_throws n 1 maxSize)

theorem checkUriChar_throws (c : Byte) (n : Nat) : ThrowsStatus (checkUriChar c n) :=
  .ite (.error _) (.ite (.error _) (.ite (.error _) (.ok _)))

theorem checkVersionChar_throws (c : Byte) (n : Nat) : ThrowsStatus (checkVersionChar c n) :=
  .ite (.error _) (.ok _)

theorem readHeaderLine_throws (strict : Bool) (p : Bytes) (n maxSize : Nat) :
    ThrowsStatus (readHeaderLine strict p n maxSize) := by
  have hscan := fun stop p n =>
    @scanUntil_throws stop _ (checkHeaderChar_throws maxSize) p n
  refine .bind (hscan _ _ _) fun ⟨key, n1, data⟩ => .ite (.error _) ?_
  refine .bind (bumpLenOrThrow_throws _ _ _) fun n2 => .bind (hscan _ _ _) fun ⟨value, n3, rest⟩ =>
    .ite ?_ (.ite ?_ (.error _))
  · exact .bind (bumpLenOrThrow_throws _ _ _) fun _ => .ok _
  · exact .bind (bumpLenOrThrow_throws _ _ _) fun _ => .ok _

theorem consumeMethod_headPhase (p : Bytes) : HeadPhase (consumeMethod p) := by
  unfold consumeMethod
  refine .ite ?_ (.ite ?_ (.ite ?_ (.ite ?_ (.throwStatus _))))
    <;> exact .bind (.modify fun _ => rfl) fun _ => .pure _

theorem consumeOptionalQuery_headPhase (len : Nat) (p : Bytes) :
    HeadPhase (consumeOptionalQuery len p) :=
  .ite (.ite (.throwStatus _)
    (.call_bind (scanUntil_throws checkUriChar_throws _ _).ends fun _ _ =>
      .bind (.modify fun _ => rfl) fun _ => .pure _)) (.pure _)

theorem consumeUri_headPhase (p : Bytes) : HeadPhase (consumeUri p) :=
  .ite (.throwStatus _) (.call_bind (scanUntil_throws checkUriChar_throws _ _).ends fun _ _ =>
    .bind (.modify fun _ => rfl) fun _ => .ite (.throwStatus _)
      (.bind (consumeOptionalQuery_headPhase _ _) fun _ => .ite (.throwStatus _) (.pure _)))

theorem consumeVersion_headPhase (p : Bytes) : HeadPhase (consumeVersion p) :=
  .call_bind (scanUntil_throws checkVersionChar_throws _ _).ends fun _ _ =>
    .ite (.throwStatus _) (.bind (.modify fun _ => rfl) fun _ => .ite (.throwStatus _) (.pure _))

theorem storeHeader_headPhase (key value : Bytes) : HeadPhase (storeHeader key value) :=
  .bind .get fun _ => .ite (.throwStatus _) (.modify fun _ => rfl)

theorem validateAndExtractHost_headPhase : HeadPhase validateAndExtractHost := by
  refine .bind .get fun r => ?_
  rcases r.headers[bytes "host"]? with - | hostValue
  · exact .throwStatus _
  · refine .ite (.throwStatus _) (.ite (.throwStatus _) (.bind (.modify fun _ => rfl) fun _ =>
      .ite (.modify fun _ => rfl) ?_))
    rcases strToUnsignedShort _ with - | port
    · exact fun _ => ⟨rfl, nofun⟩
    · exact .modify fun _ => rfl

theorem parseContentLength_headPhase (s : Bytes) : HeadPhase (parseContentLength s) := by
  unfold parseContentLength
  rcases strToLong s with - | len
  · exact .throwStatus _
  · exact .ite (.throwStatus _) (.modify fun _ => rfl)

theorem parseTransferEncoding_headPhase (s : Bytes) : HeadPhase (parseTransferEncoding s) := by
  unfold parseTransferEncoding
  exact .ite (.modify fun _ => rfl) (.throwStatus _)

theorem validateBodyHeaders_headPhase : HeadPhase validateBodyHeaders := by
  refine .bind .get fun r => ?_
  dsimp only
  rcases r.headers[bytes "content-length"]? with - | s
    <;> rcases r.headers[bytes "transfer-encoding"]? with - | s'
  · exact .modify fun _ => rfl
  · exact parseTransferEncoding_headPhase s'
  · exact .bind (parseContentLength_headPhase s) fun _ => .bind .get fun _ =>
      .ite (.throwStatus _) (.pure _)
  · exact .throwStatus _

theorem parseConnectionDirective_headPhase : HeadPhase parseConnectionDirective := by
  refine .bind .get fun r => ?_
  rcases r.headers[bytes "connection"]? with - | v
  · exact .modify fun _ => rfl
  · exact .ite (.modify fun _ => rfl) (.ite (.modify fun _ => rfl) (.throwStatus _))

theorem validateHeaders_headPhase (totalLen : Nat) : HeadPhase (validateHeaders totalLen) :=
  .call_bind (bumpLenOrThrow_throws _ _ _).ends fun _ _ => .bind validateAndExtractHost_headPhase fun _ =>
    .bind validateBodyHeaders_headPhase fun _ => parseConnectionDirective_headPhase

/-- Every iteration shortens the text, so the fuel suffices. -/
theorem consumeHeaderLines_headPhase (fuel : Nat) {p : Bytes} (hp : LineStart p)
    (hfuel : p.length < fuel) (n : Nat) : HeadPhase (consumeHeaderLines fuel p n) := by
  induction fuel generalizing p n with
  | zero => omega
  | succ fuel ih =>
      simp only [consumeHeaderLines]
      by_cases hstop : deref p = 0 ∨ isCRLF p = true
      · rw [if_pos hstop]
        exact .pure _
      · rw [if_neg hstop]
        have hterm : Terminated p := by
          refine hp.resolve_left fun h => hstop (.inr ?_)
          rw [h]
          rfl
        refine .call_bind (readHeaderLine_throws true p n kMaxHeaderSize).ends fun l hline => ?_
        obtain ⟨hrest, hlt⟩ := readHeaderLine_rest hterm hline
        exact .bind (storeHeader_headPhase _ _) fun _ => ih hrest (by omega) _

theorem consumeHeader_headPhase {p : Bytes} (hp : LineStart p) : HeadPhase (consumeHeader p) :=
  .bind (consumeHeaderLines_headPhase _ hp (Nat.lt_succ_self _) 0) fun _ =>
    .ite (.throwStatus _) (.bind (validateHeaders_headPhase _) fun _ => .pure _)

/-- **The header phase ends and leaves the progress alone.** -/
theorem consumeRequestHead_headPhase {p : Bytes} (hp : Terminated p) :
    HeadPhase (consumeRequestHead p) :=
  .bind_of_run (consumeMethod_headPhase p) fun _ _ _ hmethod =>
    have hp := consumeMethod_rest hp hmethod
    .bind_of_run (consumeUri_headPhase _) fun _ _ _ huri =>
      have hp := consumeUri_rest hp huri
      .bind_of_run (consumeVersion_headPhase _) fun _ _ _ hversion =>
        consumeHeader_headPhase (consumeVersion_rest hp hversion)

theorem consumeRequestHead_progress {r : HttpRequest} {i : Nat}
    (h : findEndOfHeader true r.buffer = some i) :
    ((consumeRequestHead r.buffer).run r).state.progress = r.progress ∧
      Ended ((consumeRequestHead r.buffer).run r) := by
  have hterm := (findEndOfHeader_eq_some h).2
  have hrun := consumeRequestHead_local hterm (r.buffer.drop i) r.buffer r
  rw [List.take_append_drop, show r.withBuffer r.buffer = r from rfl] at hrun
  obtain ⟨hprogress, hends⟩ := consumeRequestHead_headPhase hterm r
  rw [hrun]
  rcases hres : (consumeRequestHead (r.buffer.take i)).run r with ⟨q, s⟩ | ⟨e, s⟩
  · rw [hres] at hprogress
    simp only [EStateM.Result.state, HttpRequest.progress, Prod.mk.injEq] at hprogress
    refine ⟨?_, trivial⟩
    simp only [EStateM.Result.bimap, EStateM.Result.state, HttpRequest.progress,
      HttpRequest.withBuffer, hprogress]
  · rw [hres] at hprogress hends
    simp only [EStateM.Result.state, HttpRequest.progress, Prod.mk.injEq] at hprogress
    refine ⟨?_, hends⟩
    simp only [EStateM.Result.bimap, EStateM.Result.state, HttpRequest.progress,
      HttpRequest.withBuffer, hprogress]

end Webserv
