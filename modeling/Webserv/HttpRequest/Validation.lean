/-
Webserv/HttpRequest/Validation.lean

What the header phase looks up once the lines are stored: the header map as a
function of the fields, and the validation of `Host`, of the framing and of
`Connection` on a request whose map has acceptable values.
-/
import Webserv.HttpRequest.HeadFormat

namespace Webserv

/-! ### Looking up fields -/

/-- The value of the field with the lower-cased name `key`. -/
def fieldValue (fields : List HeaderField) (key : Bytes) : Option Bytes :=
  (fields.find? fun f => toLowerAscii f.name = key).map (·.value)

theorem getElem?_insert (headers : Dict) (k a v : Bytes) :
    (headers.insert k v)[a]? = if k = a then some v else headers[a]? := by
  rw [Std.ExtTreeMap.getElem?_insert]
  exact if_congr Std.compare_eq_iff_eq rfl rfl

theorem fieldValue_cons (f : HeaderField) (fs : List HeaderField) (key : Bytes) :
    fieldValue (f :: fs) key =
      if toLowerAscii f.name = key then some f.value else fieldValue fs key := by
  by_cases h : toLowerAscii f.name = key
  · simp [fieldValue, h]
  · simp [fieldValue, h]

theorem fieldValue_eq_none {fields : List HeaderField} {key : Bytes}
    (h : ∀ f ∈ fields, toLowerAscii f.name ≠ key) : fieldValue fields key = none := by
  induction fields with
  | nil => rfl
  | cons f fs ih =>
      obtain ⟨hf, hfs⟩ := List.forall_mem_cons.mp h
      rw [fieldValue_cons, if_neg hf, ih hfs]

/-- The header map is the function of the fields. -/
theorem storeFields_getElem? {fields : List HeaderField} (hdistinct : DistinctNames fields)
    (headers : Dict) (key : Bytes) :
    (storeFields headers fields)[key]? = (fieldValue fields key).or headers[key]? := by
  induction fields generalizing headers with
  | nil => rfl
  | cons f fs ih =>
      have hnodup := List.nodup_cons.mp hdistinct
      rw [show storeFields headers (f :: fs)
        = storeFields (headers.insert (toLowerAscii f.name) f.value) fs from rfl, ih hnodup.2,
        getElem?_insert, fieldValue_cons]
      by_cases h : toLowerAscii f.name = key
      · have hnone : fieldValue fs key = none := fieldValue_eq_none fun g hg heq => by
          have hmem : toLowerAscii g.name ∈ fs.map fun f => toLowerAscii f.name :=
            List.mem_map_of_mem hg
          rw [heq, ← h] at hmem
          exact hnodup.1 hmem
        rw [if_pos h, if_pos h, hnone]
        rfl
      · rw [if_neg h, if_neg h]

theorem fieldValue_insert {f : HeaderField} {before after : List HeaderField} {key : Bytes}
    (h : toLowerAscii f.name ≠ key) :
    fieldValue (before ++ f :: after) key = fieldValue (before ++ after) key := by
  induction before with
  | nil => rw [List.nil_append, fieldValue_cons, if_neg h, List.nil_append]
  | cons g gs ih => rw [List.cons_append, List.cons_append, fieldValue_cons, fieldValue_cons, ih]

theorem fieldValue_self {f : HeaderField} {before after : List HeaderField} {key : Bytes}
    (h : toLowerAscii f.name = key) (hbefore : ∀ g ∈ before, toLowerAscii g.name ≠ key) :
    fieldValue (before ++ f :: after) key = some f.value := by
  induction before with
  | nil => rw [List.nil_append, fieldValue_cons, if_pos h]
  | cons g gs ih =>
      obtain ⟨hg, hgs⟩ := List.forall_mem_cons.mp hbefore
      rw [List.cons_append, fieldValue_cons, if_neg hg, ih hgs]

/-! ### Validation -/

/-- A `Host` value that `ValidateAndExtractHost` accepts. -/
def ValidHost (v : Bytes) : Prop :=
  v.takeWhile (· ≠ COLON) ≠ [] ∧
    ((v.takeWhile (· ≠ COLON)).length ≠ v.length →
      (strToUnsignedShort (v.drop ((v.takeWhile (· ≠ COLON)).length + 1))).isSome)

theorem validateAndExtractHost_ok {r : HttpRequest} {v : Bytes}
    (hv : r.headers[bytes "host"]? = some v) (hvalid : ValidHost v) :
    ∃ name port, validateAndExtractHost.run r =
      .ok () { r with hostName := name, hostPort := port } := by
  obtain ⟨hname, hport⟩ := hvalid
  have hne : v ≠ [] := by
    rintro rfl
    exact hname rfl
  simp only [validateAndExtractHost, EStateM.run_bind, EStateM.run_get, hv, EStateM.run_ite,
    if_neg hne, if_neg hname, EStateM.run_modify]
  by_cases hlen : (v.takeWhile (· ≠ COLON)).length = v.length
  · rw [if_pos hlen]
    exact ⟨_, _, rfl⟩
  · obtain ⟨port, hp⟩ := Option.isSome_iff_exists.mp (hport hlen)
    rw [if_neg hlen, hp]
    exact ⟨_, _, rfl⟩

theorem parseConnectionDirective_ok {r : HttpRequest}
    (h : ∀ v, r.headers[bytes "connection"]? = some v →
      v = bytes "close" ∨ v = bytes "keep-alive") :
    ∃ keep, parseConnectionDirective.run r = .ok () { r with keepAlive := keep } := by
  simp only [parseConnectionDirective, EStateM.run_bind, EStateM.run_get]
  rcases hv : r.headers[bytes "connection"]? with - | v
  · exact ⟨_, rfl⟩
  · rcases h v hv with rfl | rfl
    · exact ⟨_, rfl⟩
    · exact ⟨_, rfl⟩

/-- Validation of a request with acceptable `Host` and `Connection` fields: it is
decided by the framing. -/
theorem validateHeaders_run {r : HttpRequest} {n : Nat} (hn : n + 2 ≤ kMaxHeaderSize) {v : Bytes}
    (hv : r.headers[bytes "host"]? = some v) (hvalid : ValidHost v) :
    ∃ name port, (validateHeaders n).run r =
      (validateBodyHeaders >>= fun _ => parseConnectionDirective).run
        { r with hostName := name, hostPort := port } := by
  obtain ⟨name, port, hhost⟩ := validateAndExtractHost_ok hv hvalid
  refine ⟨name, port, ?_⟩
  rw [validateHeaders, bumpLenOrThrow_ok hn kMaxHeaderSize_lt]
  simp only [EStateM.run_bind, run_call_ok, hhost]

theorem validateBodyHeaders_contentLength {r : HttpRequest} {n : Nat} (hn : n ≤ stringMaxSize)
    (hcl : r.headers[bytes "content-length"]? = some (natToString n))
    (hte : r.headers[bytes "transfer-encoding"]? = none) :
    validateBodyHeaders.run r =
      if n > kMaxPayloadSize then .error (.responseStatus .kBadRequest) r
      else if n > r.maxBodySizeLimit then
        .error (.responseStatus .kPayloadTooLarge) { r with contentLength := n }
      else .ok () { r with contentLength := n } := by
  have hlt : n < sizeMod := by unfold stringMaxSize at hn; unfold sizeMod; omega
  have hlong : strToLong (natToString n) = some (n : Int) := strToLong_natToString hn
  have hsize : toSize (n : Int) = n := toSize_natCast hlt
  have hneg : ¬ (n : Int) < 0 := by omega
  simp only [validateBodyHeaders, EStateM.run_bind, EStateM.run_get, hcl, hte, parseContentLength,
    hlong, hsize, hneg, false_or, EStateM.run_ite]
  by_cases hbig : n > kMaxPayloadSize
  · rw [if_pos hbig, if_pos hbig]
    rfl
  · rw [if_neg hbig, if_neg hbig]
    have hpos : (n : Int) ≥ 0 := by omega
    simp only [EStateM.run_modify, hsize, hpos, true_and]
    split_ifs <;> rfl

theorem validateBodyHeaders_chunked {r : HttpRequest}
    (hcl : r.headers[bytes "content-length"]? = none)
    (hte : r.headers[bytes "transfer-encoding"]? = some (bytes "chunked")) :
    validateBodyHeaders.run r = .ok () { r with contentLength := -1 } := by
  simp only [validateBodyHeaders, EStateM.run_bind, EStateM.run_get, hcl, hte,
    parseTransferEncoding, if_true, EStateM.run_modify]

end Webserv
