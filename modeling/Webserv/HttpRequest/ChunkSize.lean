/-
Webserv/HttpRequest/ChunkSize.lean

The arithmetic on the size of a chunk, from its digits to its data.

A run of digits of any length is read exactly, or refused.  The size is then cast to a
`ptrdiff_t` and back, subtracted from the limit, and added to the read position, each of which
could wrap in 64 bits; under a limit that the configuration can set none does, unless the
decoder throws.
-/
import Webserv.HttpRequest.ChunkRun

namespace Webserv

/-- None of the operations on a size wraps: its cast and the cast back, the room that the limit
leaves for the body, and the bytes that have to be in the buffer behind `pos`. -/
structure ExactArithmetic (limit pos size : Nat) : Prop where
  cast : toPtrdiff size = size
  back : toSize (toPtrdiff size) = size
  within : size ≤ limit
  room : subSize limit size = limit - size
  needed : addSize size 2 = size + 2
  total : addSize pos (addSize size 2) = pos + (size + 2)

theorem ExactArithmetic.of_le {limit pos size : Nat} (hlimit : limit ≤ 100000000)
    (hpos : pos ≤ stringMaxSize) (hsize : size ≤ limit) : ExactArithmetic limit pos size := by
  have hmax : stringMaxSize = 2 ^ 63 - 1 := by decide
  have hmod : sizeMod = 2 ^ 64 := rfl
  have hneeded : addSize size 2 = size + 2 := addSize_of_lt (by omega)
  refine ⟨toPtrdiff_of_lt (by omega), toSize_toPtrdiff (by omega), hsize,
    subSize_of_le hsize (by omega), hneeded, ?_⟩
  rw [hneeded]
  exact addSize_of_lt (by omega)

/-- The data of a chunk are as long as announced, and nothing else goes to the body. -/
def TakesAnnounced (r : HttpRequest) (size : Nat) : Option Bool → HttpRequest → Prop
  | none, t => ∃ data rest, r.unread = data ++ CRLF ++ rest ∧ data.length = size ∧
      t.body = r.body ++ data
  | some _, t => t.body = r.body

/-- **Behind a size line** of any size: what does not throw computes exactly, and takes a chunk
of this size. -/
theorem consumeChunk_takes {r t : HttpRequest} {size : Nat} {o : Option Bool}
    (hlimit : r.maxBodySizeLimit ≤ 100000000) (hbody : r.body.length ≤ r.maxBodySizeLimit)
    (hbuffer : r.buffer.length ≤ stringMaxSize) (hpos : r.bufferReadPos ≤ r.buffer.length)
    (hsize : size < sizeMod) (hnext : r.nextChunkSize = toPtrdiff size)
    (hrun : consumeChunk.run r = .ok o t) :
    ExactArithmetic r.maxBodySizeLimit r.bufferReadPos size ∧ TakesAnnounced r size o t := by
  have hmax : stringMaxSize = 2 ^ 63 - 1 := by decide
  have hmod : sizeMod = 2 ^ 64 := rfl
  have hfits : Fits r := ⟨hpos, by omega⟩
  have hroom : r.HasRoom := fun size hfit _ => by
    have hle := not_tooLarge_iff.mp hfit
    omega
  have hback : toSize r.nextChunkSize = size := by rw [hnext, toSize_toPtrdiff hsize]
  have hexact : size ≤ r.maxBodySizeLimit →
      ExactArithmetic r.maxBodySizeLimit r.bufferReadPos size :=
    .of_le hlimit (hpos.trans hbuffer)
  rw [consumeChunk_run hfits hroom, dataStep, hback] at hrun
  by_cases h0 : r.nextChunkSize = 0
  · -- the last chunk: no data, and the body is left alone
    rw [if_pos h0] at hrun
    rw [hnext, toPtrdiff_eq_zero hsize] at h0
    refine ⟨hexact (by omega), ?_⟩
    rcases hunread : r.unread with - | ⟨c, - | ⟨c', rest⟩⟩
    · rw [hunread] at hrun
      cases hrun
      rfl
    · rw [hunread] at hrun
      cases hrun
      rfl
    · rw [hunread] at hrun
      dsimp only at hrun
      split_ifs at hrun
      · cases hrun
        rfl
      · cases hrun
      · cases hrun
  · rw [if_neg h0] at hrun
    -- a size beyond the limit is refused before its data is touched
    by_cases hbig : r.tooLarge size
    · rw [if_pos hbig] at hrun
      cases hrun
    · rw [if_neg hbig] at hrun
      have hle := not_tooLarge_iff.mp hbig
      refine ⟨hexact (by omega), ?_⟩
      rcases hdrop : r.unread.drop size with - | ⟨c, - | ⟨c', rest⟩⟩
      · rw [hdrop] at hrun
        cases hrun
        rfl
      · rw [hdrop] at hrun
        cases hrun
        rfl
      · rw [hdrop] at hrun
        dsimp only at hrun
        -- the data stands in the buffer whole, with its line end
        split_ifs at hrun with hcr
        · cases hrun
          obtain ⟨rfl, rfl⟩ := hcr
          have hlen := congrArg List.length hdrop
          simp only [List.length_drop, List.length_cons] at hlen
          refine ⟨r.unread.take size, rest, ?_, ?_, rfl⟩
          · have hsplit := List.take_append_drop size r.unread
            rw [hdrop] at hsplit
            rw [List.append_assoc]
            exact hsplit.symm
          · rw [List.length_take]
            omega
        · cases hrun

/-- **A size is what its digits say.**  For every run of digits and every limit of a
configuration, `ParseChunkSize` yields the value or, from 2^64 on, refuses it; and whatever
bytes come next, now or in a later call, the decoder computes without wrapping and takes a
chunk of this size, or throws. -/
theorem chunkSize_exact {r : HttpRequest} {ds rest : Bytes}
    (hlimit : r.maxBodySizeLimit ≤ 100000000) (hbody : r.body.length ≤ r.maxBodySizeLimit)
    (hbuffer : r.buffer.length ≤ stringMaxSize) (hnext : r.nextChunkSize = -1) (hne : ds ≠ [])
    (hhex : ∀ c ∈ ds, isHexDigit c = true) (hunread : r.unread = ds ++ CRLF ++ rest) :
    (parseChunkSize r.bufferReadPos).run r =
        (if hexVal ds < sizeMod then .ok (some (r.bufferReadPos + (ds.length + 2), hexVal ds)) r
          else .error (.responseStatus .kBadRequest) r) ∧
      (hexVal ds < sizeMod →
        readSizeLine.run r = .ok true (r.afterSizeLine (ds.length + 2) (hexVal ds)) ∧
          ∀ p o t, r.buffer.length + p.length ≤ stringMaxSize →
            consumeChunk.run ((r.afterSizeLine (ds.length + 2) (hexVal ds)).receive p) = .ok o t →
              ExactArithmetic r.maxBodySizeLimit (r.bufferReadPos + (ds.length + 2)) (hexVal ds) ∧
                TakesAnnounced ((r.afterSizeLine (ds.length + 2) (hexVal ds)).receive p)
                  (hexVal ds) o t) := by
  have hmax : stringMaxSize = 2 ^ 63 - 1 := by decide
  have hmod : sizeMod = 2 ^ 64 := rfl
  have hlen : r.unread.length = r.buffer.length - r.bufferReadPos := List.length_drop
  have hlong : r.unread.length = ds.length + 2 + rest.length := by
    rw [hunread, List.length_append, List.length_append]
    rfl
  have hfits : Fits r := ⟨by omega, by omega⟩
  by_cases hval : hexVal ds < sizeMod
  · have hline : sizeLine r.unread = .read (ds.length + 2) (hexVal ds) :=
      sizeLine_eq_read.mpr ⟨ds, rest, hunread, hne, hhex, rfl, hval, rfl⟩
    refine ⟨?_, fun _ => ⟨?_, fun p o t hp hrun => ?_⟩⟩
    · rw [parseChunkSize_run hfits, hline, if_pos hval]
    · rw [readSizeLine_run hfits, if_pos hnext, hline]
    · refine consumeChunk_takes
        (r := (r.afterSizeLine (ds.length + 2) (hexVal ds)).receive p)
        hlimit hbody ?_ ?_ hval rfl hrun
      · show (r.buffer ++ p).length ≤ stringMaxSize
        rwa [List.length_append]
      · show r.bufferReadPos + (ds.length + 2) ≤ (r.buffer ++ p).length
        rw [List.length_append]
        omega
  · have hline : sizeLine r.unread = .malformed := by
      -- the digits are all read, and their value is too large
      have htake : r.unread.takeWhile isHexDigit = ds := by
        rw [hunread, List.append_assoc, List.takeWhile_append_of_pos hhex]
        simp
      rw [sizeLine, htake]
      exact if_pos (not_lt.mp hval)
    refine ⟨?_, fun h => absurd h hval⟩
    rw [parseChunkSize_run hfits, hline, if_neg hval]

/-- A chunked body in front of its first size line. -/
def atSizeLine (limit : Nat) (b : Bytes) : HttpRequest :=
  { HttpRequest.fresh limit with state := .kBody, buffer := b }

/-- Three bytes, announced with a leading zero, under a limit of 1024. -/
theorem chunkSize_exact_three :
    readSizeLine.run (atSizeLine 1024 (bytes "03\r\nabc\r\n")) =
        .ok true ((atSizeLine 1024 (bytes "03\r\nabc\r\n")).afterSizeLine 4 3) ∧
      ∀ p o t, 9 + p.length ≤ stringMaxSize → consumeChunk.run
          (((atSizeLine 1024 (bytes "03\r\nabc\r\n")).afterSizeLine 4 3).receive p) = .ok o t →
        ExactArithmetic 1024 4 3 ∧ TakesAnnounced
          (((atSizeLine 1024 (bytes "03\r\nabc\r\n")).afterSizeLine 4 3).receive p) 3 o t :=
  (@chunkSize_exact (atSizeLine 1024 (bytes "03\r\nabc\r\n")) (bytes "03") (bytes "abc\r\n")
    (by decide) (by decide) (by decide) rfl (by decide) (by decide +kernel) (by decide)).2
    (by decide)

end Webserv
