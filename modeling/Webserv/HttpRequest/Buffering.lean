/-
Webserv/HttpRequest/Buffering.lean

How much of its input the parser keeps.

The size of the header section is only looked at when its end has been found: until
then every byte stays in `buffer_`, and nothing but `std::string::max_size()` bounds
it.
-/
import Webserv.HttpRequest.Segmentation

namespace Webserv

/-- The size of the reads from a client socket. -/
def kReadSize : Nat := 1024

/-- As long as no call has thrown, the buffer holds at most `bound` bytes. -/
def BoundedBuffering (limit bound : Nat) : Prop :=
  ∀ pieces : List Bytes, (∀ p ∈ pieces, p.length ≤ kReadSize) → ∀ s,
    (pieces.forM HttpRequest.parse).run (.fresh limit) = .ok () s → s.buffer.length ≤ bound

/-! ### A head that does not end -/

theorem findEndOfHeader_of_notMem {s : Bytes} (h : CR ∉ s) : findEndOfHeader true s = none := by
  have hnone : Substring.find (CRLF ++ CRLF) s = none := by
    rw [Substring.find_eq_none_iff (by decide)]
    intro i hocc
    have hmem : CR ∈ s.drop i := List.IsPrefix.subset hocc (by decide)
    exact h (List.mem_of_mem_drop hmem)
  rw [findEndOfHeader, hnone]
  rfl

/-- **A head without its end is kept**, one piece after the other. -/
theorem forM_parse_unended (limit n : Nat) (hn : n ≤ stringMaxSize) :
    ((List.replicate n [97]).forM HttpRequest.parse).run (.fresh limit) =
      .ok () ((HttpRequest.fresh limit).receive (List.replicate n 97)) := by
  induction n with
  | zero => rfl
  | succ n ih =>
      have hfits : ((HttpRequest.fresh limit).receive (List.replicate n 97)).buffer.length +
          ([97] : Bytes).length ≤ stringMaxSize := by
        show ([] ++ List.replicate n (97 : Byte)).length + 1 ≤ _
        rwa [List.nil_append, List.length_replicate]
      have hwait : headerStep (((HttpRequest.fresh limit).receive (List.replicate n 97)).receive [97])
          = .wait := by
        have hbuffer : ((HttpRequest.fresh limit).receive (List.replicate (n + 1) 97)).buffer =
            List.replicate (n + 1) 97 := List.nil_append _
        have hmem : CR ∉ List.replicate (n + 1) (97 : Byte) := by
          intro hmem
          exact absurd (List.eq_of_mem_replicate hmem) (by decide)
        rw [receive_append, ← List.replicate_succ', headerStep, hbuffer,
          findEndOfHeader_of_notMem hmem]
      rw [List.replicate_succ', Incremental.forM_append_singleton, ih (by omega)]
      dsimp only
      rw [parse_wait rfl hfits hwait, receive_append, ← List.replicate_succ']

/-- The only bounds are those of every string. -/
theorem BoundedBuffering.stringMaxSize_le {limit bound : Nat} (h : BoundedBuffering limit bound) :
    stringMaxSize ≤ bound := by
  have hpieces : ∀ p ∈ List.replicate stringMaxSize ([97] : Bytes), p.length ≤ kReadSize := by
    intro p hp
    rw [List.eq_of_mem_replicate hp]
    decide
  have hle := h _ hpieces _ (forM_parse_unended limit stringMaxSize le_rfl)
  have hlen : ([] ++ List.replicate stringMaxSize (97 : Byte)).length ≤ bound := hle
  rwa [List.nil_append, List.length_replicate] at hlen

/-- **No bound on the buffering**, other than the length of the longest string. -/
theorem not_boundedBuffering (limit : Nat) :
    ¬ ∃ bound, bound < stringMaxSize ∧ BoundedBuffering limit bound := by
  rintro ⟨bound, hlt, hbound⟩
  exact absurd hbound.stringMaxSize_le (not_le.mpr hlt)

/-- The limit of a fresh request. -/
theorem boundedBuffering_fails :
    ¬ ∃ bound, bound < stringMaxSize ∧ BoundedBuffering kMaxPayloadSize bound := by
  rintro ⟨bound, hlt, hbound⟩
  exact absurd hbound.stringMaxSize_le (not_le.mpr hlt)

end Webserv
