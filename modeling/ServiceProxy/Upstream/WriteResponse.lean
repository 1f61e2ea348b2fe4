import ServiceProxy.Upstream.Decode

/-!
# Writing a response to the client (`upstream/dial.rs`)

* `writeResponse` — the bytes `write_response` sends; `read_response` reads a map with other spellings of the same name as
  other keys, `write_response` leaves out `Connection` and `Content-Length` in any spelling;
* `WellRead` — what `read_response` can return: names without a colon, names and values without a line feed and without
  white space around them, as many characters as they have;
* `readResponse_writeResponse` — **the round trip**: what is written of such a response is read back, in any order of its
  map, whatever comes after it and however it arrives.
-/

namespace ServiceProxy.Upstream

open ServiceProxy.Lib

/-! ## The code -/

/-- `reason_phrase`. -/
def reasonPhrase : ℕ → List Char
  | 200 => "OK".toList
  | 400 => "Bad Request".toList
  | 502 => "Bad Gateway".toList
  | 500 => "Internal Server Error".toList
  | _ => "OK".toList

/-- The keys that `write_response` does not copy. -/
def skipsInResponse (k : List Char) : Bool :=
  let lower := toAsciiLowercase k
  lower = "connection".toList ∨ lower = "content-length".toList

/-- Everything `write_response` sends before the body. -/
def responseHead (resp : Response) : List Char :=
  "HTTP/1.1 ".toList ++ Nat.toDigits 10 resp.statusCode ++ [' '] ++ reasonPhrase resp.statusCode ++ crlf ++
    resp.headers.flatMap (fun (k, values) => if skipsInResponse k then [] else values.flatMap (headerLine k)) ++
    "Content-Length: ".toList ++ Nat.toDigits 10 resp.body.length ++ "\r\nConnection: close\r\n\r\n".toList

/-- `write_response`. -/
def writeResponse (resp : Response) : List UInt8 := utf8Encode (responseHead resp) ++ resp.body

/-- `write_error`. -/
def writeError (status : ℕ) : List UInt8 := writeResponse { statusCode := status, headers := [], body := [] }

/-! ## The field lines -/

/-- The header map a client of the proxy gets: the fields that `write_response` copies, and its own two. -/
def sentHeaders (resp : Response) : HeaderMap :=
  resp.headers.filter (fun p => !skipsInResponse p.1) ++
    [("Content-Length".toList, [Nat.toDigits 10 resp.body.length]), ("Connection".toList, ["close".toList])]

/-- The fields of a map, one by one. -/
def HeaderMap.fields (m : HeaderMap) : List (List Char × List Char) := m.flatMap fun p => p.2.map fun v => (p.1, v)

theorem responseHead_eq (resp : Response) :
    responseHead resp = "HTTP/1.1 ".toList ++ Nat.toDigits 10 resp.statusCode ++ [' '] ++ reasonPhrase resp.statusCode ++
      crlf ++ (HeaderMap.fields (sentHeaders resp)).flatMap (fun p => headerLine p.1 p.2) ++ crlf := by
  have hclose : "\r\nConnection: close\r\n\r\n".toList =
      crlf ++ headerLine "Connection".toList "close".toList ++ crlf := by decide
  have hlength : "Content-Length: ".toList = "Content-Length".toList ++ ": ".toList := by decide
  have hcopied : resp.headers.flatMap (fun (k, values) => if skipsInResponse k then [] else values.flatMap (headerLine k)) =
      (HeaderMap.fields (resp.headers.filter fun p => !skipsInResponse p.1)).flatMap fun p => headerLine p.1 p.2 := by
    induction resp.headers with
    | nil => rfl
    | cons p m ih =>
      obtain ⟨k, values⟩ := p
      rw [List.flatMap_cons, ih]
      cases hskip : skipsInResponse k with
      | true => simp [hskip, HeaderMap.fields]
      | false => simp [hskip, HeaderMap.fields, List.flatMap_map]
  unfold responseHead sentHeaders
  rw [hclose, hlength, hcopied]
  simp [HeaderMap.fields, headerLine]

/-! ## What `read_response` can return -/

/-- The name and the value of a field line, as `read_response` returns them. -/
structure OnLine (k v : List Char) : Prop where
  colon : ':' ∉ k
  name : '\n' ∉ k
  trim_name : trim k = k
  value : '\n' ∉ v
  trim_value : trim v = v

/-- A map as `read_response` fills it. -/
structure HeaderMap.WellRead (m : HeaderMap) : Prop where
  keys : (m.map Prod.fst).Nodup
  values : ∀ k vs, (k, vs) ∈ m → vs ≠ []
  onLine : ∀ k vs, (k, vs) ∈ m → ∀ v ∈ vs, OnLine k v

/-- A response as `read_response` returns it. -/
structure WellRead (resp : Response) : Prop where
  code : resp.statusCode < 2 ^ 16
  headers : resp.headers.WellRead
  body : resp.body.length < 2 ^ 63

section WellRead

variable {m : HeaderMap} {k v : List Char} {e : Ending} {bs rest : List UInt8}

theorem HeaderMap.wellRead_nil : HeaderMap.WellRead [] :=
  ⟨List.nodup_nil, fun _ _ hmem => absurd hmem List.not_mem_nil, fun _ _ hmem => absurd hmem List.not_mem_nil⟩

theorem HeaderMap.keys_push (m : HeaderMap) : (HeaderMap.push k v m).map Prod.fst =
    if k ∈ m.map Prod.fst then m.map Prod.fst else m.map Prod.fst ++ [k] := by
  induction m with
  | nil => rfl
  | cons p m ih =>
    obtain ⟨k', vs⟩ := p
    simp only [HeaderMap.push]
    by_cases hk : k' = k
    · rw [if_pos hk, if_pos (by simp [hk])]
      rfl
    · rw [if_neg hk, List.map_cons, List.map_cons, ih]
      by_cases hmem : k ∈ m.map Prod.fst
      · rw [if_pos hmem, if_pos (List.mem_cons_of_mem _ hmem)]
      · rw [if_neg hmem, if_neg (by simpa [Ne.symm hk] using hmem)]
        rfl

theorem HeaderMap.nodup_push (h : (m.map Prod.fst).Nodup) : ((HeaderMap.push k v m).map Prod.fst).Nodup := by
  rw [HeaderMap.keys_push]
  split_ifs with hk
  · exact h
  · rw [List.nodup_append]
    exact ⟨h, by simp, fun a ha b hb => by rintro rfl; exact hk (List.mem_singleton.1 hb ▸ ha)⟩

theorem HeaderMap.nodup_pushAll {ps : List (List Char × List Char)} (h : (m.map Prod.fst).Nodup) :
    ((m.pushAll ps).map Prod.fst).Nodup := by
  induction ps generalizing m with
  | nil => exact h
  | cons p ps ih => exact ih (HeaderMap.nodup_push h)

theorem HeaderMap.WellRead.push (h : m.WellRead) (hkv : OnLine k v) : (HeaderMap.push k v m).WellRead := by
  refine ⟨HeaderMap.nodup_push h.keys, fun k' vs hmem => ?_, fun k' vs hmem v' hv' => ?_⟩
  · rcases HeaderMap.mem_push hmem with hmem | ⟨-, ws, -, rfl⟩
    · exact h.values k' vs hmem
    · simp
  · rcases HeaderMap.mem_push hmem with hmem | ⟨rfl, ws, hws, rfl⟩
    · exact h.onLine k' vs hmem v' hv'
    · rcases List.mem_append.1 hv' with hv' | hv'
      · rcases hws with rfl | hws
        · cases hv'
        · exact h.onLine _ ws hws v' hv'
      · obtain rfl := List.mem_singleton.1 hv'
        exact hkv

theorem readLine_eq_ok {line : List Char} :
    (plain e).readLine bs = .ok (line, rest) ↔ ∃ l, Plain.readUntil 10 e bs = .ok (l, rest) ∧ utf8Decode l = some line := by
  simp only [plain, lineOf, bind, Except.bind]
  cases Plain.readUntil 10 e bs with
  | error => simp
  | ok p =>
    obtain ⟨l, r⟩ := p
    cases hdecode : utf8Decode l with
    | none => simp [hdecode]
    | some cs => simp [hdecode, and_comm]

theorem mem_of_utf8Decode {l : List UInt8} {cs : List Char} (h : utf8Decode l = some cs) (hmem : '\n' ∈ cs) : 10 ∈ l := by
  rw [utf8Decode_eq_some] at h
  rw [← h]
  exact (mem_utf8Encode (c := '\n') (by decide)).2 hmem

theorem notMem_readLine {line : List Char} (h : (plain e).readLine bs = .ok (line, rest)) :
    '\n' ∉ trimEndMatches isCrOrLf line := by
  obtain ⟨l, hread, hdecode⟩ := readLine_eq_ok.1 h
  obtain ⟨l', hnot, rfl, -⟩ | ⟨hnot, -, rfl, -⟩ := Plain.readUntil_eq_ok.1 hread
  · have hsplit : utf8Decode (l' ++ utf8Encode ['\n']) = (utf8Decode l').map (· ++ ['\n']) :=
      utf8Decode_append_encode l' (by simp)
    rw [show utf8Encode ['\n'] = [10] from rfl] at hsplit
    rw [hsplit] at hdecode
    obtain ⟨cs, hcs, rfl⟩ := Option.map_eq_some_iff.1 hdecode
    rw [trimEndMatches, rdropWhile_append_of_pos (by simp [isCrOrLf])]
    exact fun hmem => hnot (mem_of_utf8Decode hcs (mem_of_mem_trimEndMatches hmem))
  · exact fun hmem => hnot (mem_of_utf8Decode hdecode (mem_of_mem_trimEndMatches hmem))

/-- **The header loop fills a map in this way.** -/
theorem wellRead_readHeaders {turns : ℕ} {contentLength : Option ℕ} {p : HeaderMap × Option ℕ} (hm : m.WellRead)
    (h : readHeaders (plain e) turns m contentLength bs = .ok (p, rest)) : p.1.WellRead := by
  induction turns generalizing m contentLength bs with
  | zero => cases h
  | succ turns ih =>
    rw [readHeaders, bind_eq_ok] at h
    obtain ⟨⟨line, bs'⟩, hline, h⟩ := h
    have hlf := notMem_readLine (mapError_eq_ok.1 hline)
    simp only at h
    split_ifs at h with hempty
    · obtain ⟨rfl, rfl⟩ := Prod.mk.inj (Except.ok.inj h)
      exact hm
    · split at h
      · cases h
      · rename_i name value hsplit
        obtain ⟨hcolon, heq⟩ := splitOnce_eq_some.1 hsplit
        rw [heq, List.mem_append, List.mem_cons, not_or, not_or] at hlf
        refine ih (hm.push ⟨?_, ?_, trim_trim name, ?_, trim_trim value⟩) h
        · exact fun hmem => hcolon (mem_of_mem_trim hmem)
        · exact fun hmem => hlf.1 (mem_of_mem_trim hmem)
        · exact fun hmem => hlf.2.2 (mem_of_mem_trim hmem)

theorem length_readBody {contentLength : Option ℕ} {body : List UInt8}
    (h : readBody (plain e) contentLength bs = .ok (body, rest)) : body.length < 2 ^ 63 := by
  unfold readBody at h
  split at h
  · rename_i n
    split_ifs at h with hn
    obtain ⟨-, rfl, -⟩ := Plain.readExact_eq_ok.1 (mapError_eq_ok.1 h)
    exact Nat.lt_of_le_of_lt (List.length_take_le n bs) hn
  · obtain ⟨rfl, -⟩ := Prod.mk.inj (Except.ok.inj h)
    exact Nat.two_pow_pos 63

theorem parseUnsigned_lt {bound n : ℕ} {cs : List Char} (h : parseUnsigned bound cs = some n) : n < bound := by
  simp only [parseUnsigned, Option.ite_none_right_eq_some, Option.some.injEq] at h
  obtain ⟨⟨-, -, hlt⟩, rfl⟩ := h
  exact hlt

theorem parseStatusLine_lt {line : List Char} {code : ℕ} (h : parseStatusLine line = .ok code) : code < 2 ^ 16 := by
  unfold parseStatusLine at h
  split_ifs at h
  split at h
  · split at h
    · rename_i hcode
      obtain rfl := Except.ok.inj h
      exact parseUnsigned_lt hcode
    · cases h
  · cases h

/-- **What `read_response` returns.** -/
theorem wellRead_decode {resp : Response} (h : decode e bs = .ok (resp, rest)) : WellRead resp := by
  obtain ⟨⟨line, bs'⟩, -, h⟩ := bind_eq_ok.1 h
  obtain ⟨code, hcode, h⟩ := bind_eq_ok.1 h
  obtain ⟨⟨⟨headers, contentLength⟩, bs''⟩, hheaders, h⟩ := bind_eq_ok.1 h
  obtain ⟨⟨body, rest'⟩, hbody, h⟩ := bind_eq_ok.1 h
  obtain ⟨rfl, -⟩ := Prod.mk.inj (Except.ok.inj h)
  exact ⟨parseStatusLine_lt hcode, wellRead_readHeaders HeaderMap.wellRead_nil hheaders, length_readBody hbody⟩

end WellRead

/-! ## The round trip -/

section RoundTrip

variable {k v : List Char} {e : Ending} {turns : ℕ} {contentLength : Option ℕ} {m : HeaderMap}
  {ps : List (List Char × List Char)}

theorem isWhitespace_of_isCrOrLf {c : Char} (h : isCrOrLf c) : isWhitespace c := by
  simp only [isCrOrLf, decide_eq_true_eq] at h
  rcases h with rfl | rfl <;> decide

theorem trimEndMatches_headerLine (h : OnLine k v) :
    trimEndMatches isCrOrLf (headerLine k v) = k ++ ':' :: ' ' :: v := by
  have hline : headerLine k v = k ++ ':' :: ' ' :: v ++ crlf := by simp [headerLine]
  rw [hline, trimEndMatches, rdropWhile_append_of_pos (by simp [crlf, isCrOrLf]), List.rdropWhile_eq_self_iff]
  intro hne
  by_cases hv : v = []
  · subst hv
    rw [show (k ++ [':', ' ']).getLast hne = ' ' by simp]
    decide
  · rw [List.getLast_append_of_ne_nil hne (by simp), List.getLast_cons (by simp), List.getLast_cons hv]
    exact fun hcr => getLast_of_trim h.trim_value hv (isWhitespace_of_isCrOrLf hcr)

theorem readHeaders_headerLine (h : OnLine k v) (rest : List UInt8) :
    readHeaders (plain e) (turns + 1) m contentLength (utf8Encode (headerLine k v) ++ rest) =
      readHeaders (plain e) turns (m.push k v) (lengthAfter contentLength (k, v)) rest := by
  have hline : headerLine k v = k ++ ':' :: ' ' :: v ++ crlf := by simp [headerLine]
  have hlf : 10 ∉ utf8Encode (k ++ ':' :: ' ' :: v) :=
    notMem_encode (c := '\n') (by decide) (by simp [h.name, h.value])
  have hread : (plain e).readLine (utf8Encode (headerLine k v) ++ rest) = .ok (headerLine k v, rest) := by
    rw [hline, utf8Encode_append, ← crlf_eq_encode, readLine_crlf hlf, utf8Decode_utf8Encode]
  have hvalue : trim (' ' :: v) = v := by
    have htrim : trim ([' '] ++ (v ++ [])) = trim v := trim_append (by simp [isWhitespace]) (by simp)
    rw [List.append_nil] at htrim
    exact htrim.trans h.trim_value
  rw [readHeaders, hread]
  simp only [Except.mapError, bind, Except.bind, trimEndMatches_headerLine h]
  rw [if_neg (by simp), splitOnce_append h.colon]
  simp only [h.trim_name, hvalue, lengthAfter]

/-- **The header loop on field lines.** -/
theorem readHeaders_headerLines (hps : ∀ p ∈ ps, OnLine p.1 p.2) (hturns : ps.length < turns) (rest : List UInt8) :
    readHeaders (plain e) turns m contentLength (utf8Encode (ps.flatMap fun p => headerLine p.1 p.2) ++ (Rfc9112.crlf ++ rest)) =
      .ok ((m.pushAll ps, ps.foldl lengthAfter contentLength), rest) := by
  induction ps generalizing turns m contentLength with
  | nil =>
    obtain ⟨n, rfl⟩ : ∃ n, turns = n + 1 := ⟨turns - 1, by omega⟩
    exact readHeaders_crlf e n m contentLength rest
  | cons p ps ih =>
    obtain ⟨n, rfl⟩ : ∃ n, turns = n + 1 := ⟨turns - 1, by omega⟩
    rw [List.flatMap_cons, utf8Encode_append, List.append_assoc, readHeaders_headerLine (hps p (by simp))]
    exact ih (fun q hq => hps q (List.mem_cons_of_mem _ hq)) (by simpa using hturns)

theorem HeaderMap.push_append (m' : HeaderMap) (hk : k ∉ m.map Prod.fst) :
    HeaderMap.push k v (m ++ m') = m ++ HeaderMap.push k v m' := by
  induction m with
  | nil => rfl
  | cons p m ih =>
    simp only [List.map_cons, List.mem_cons, not_or] at hk
    rw [List.cons_append, HeaderMap.push, if_neg (Ne.symm hk.1), ih hk.2]
    rfl

theorem HeaderMap.pushAll_append (ps qs : List (List Char × List Char)) :
    m.pushAll (ps ++ qs) = (m.pushAll ps).pushAll qs := List.foldl_append

/-- The values of a new key are read back. -/
theorem HeaderMap.pushAll_values (hk : k ∉ m.map Prod.fst) (us vs : List (List Char)) :
    HeaderMap.pushAll (m ++ [(k, us)]) (vs.map fun v => (k, v)) = m ++ [(k, us ++ vs)] := by
  induction vs generalizing us with
  | nil => simp [HeaderMap.pushAll]
  | cons v vs ih =>
    have hpush : HeaderMap.push k v (m ++ [(k, us)]) = m ++ [(k, us ++ [v])] := by
      rw [HeaderMap.push_append _ hk, HeaderMap.push, if_pos rfl]
    have hrest := ih (us ++ [v])
    rw [List.append_assoc, List.singleton_append, ← hpush] at hrest
    exact hrest

/-- **A map is read back from its fields.** -/
theorem HeaderMap.pushAll_fields (m' : HeaderMap) (hkeys : ((m ++ m').map Prod.fst).Nodup)
    (hvalues : ∀ k vs, (k, vs) ∈ m' → vs ≠ []) : m.pushAll m'.fields = m ++ m' := by
  induction m' generalizing m with
  | nil => simp [HeaderMap.fields, HeaderMap.pushAll]
  | cons p m' ih =>
    obtain ⟨k, vs⟩ := p
    have hk : k ∉ m.map Prod.fst := by
      rw [List.map_append, List.nodup_append] at hkeys
      exact fun hmem => hkeys.2.2 k hmem k (by simp) rfl
    obtain ⟨v, vs, rfl⟩ := List.exists_cons_of_ne_nil (hvalues k vs (by simp))
    have hfields : HeaderMap.fields ((k, v :: vs) :: m') =
        (k, v) :: (vs.map (fun v => (k, v)) ++ HeaderMap.fields m') := by
      simp [HeaderMap.fields]
    have hpush : HeaderMap.push k v m = m ++ [(k, [v])] := by
      have happend := HeaderMap.push_append (v := v) [] hk
      rwa [List.append_nil] at happend
    calc m.pushAll (HeaderMap.fields ((k, v :: vs) :: m'))
        = HeaderMap.pushAll (m ++ [(k, [v])]) (vs.map (fun v => (k, v)) ++ HeaderMap.fields m') := by
          rw [hfields, ← hpush]
          rfl
      _ = HeaderMap.pushAll (m ++ [(k, v :: vs)]) (HeaderMap.fields m') := by
          rw [HeaderMap.pushAll_append, HeaderMap.pushAll_values hk]
          rfl
      _ = m ++ (k, v :: vs) :: m' := by
          rw [ih (by simpa using hkeys) fun k' us hmem => hvalues k' us (List.mem_cons_of_mem _ hmem)]
          simp

theorem HeaderMap.fields_push : (HeaderMap.fields (HeaderMap.push k v m)).Perm (m.fields ++ [(k, v)]) := by
  induction m with
  | nil => exact .refl _
  | cons p m ih =>
    obtain ⟨j, ws⟩ := p
    have hcons : ∀ (vs : List (List Char)) (m : HeaderMap),
        HeaderMap.fields ((j, vs) :: m) = vs.map (fun v => (j, v)) ++ m.fields := fun _ _ => rfl
    simp only [HeaderMap.push]
    split_ifs with hj
    · subst hj
      rw [hcons, hcons, List.map_append, List.append_assoc, List.append_assoc]
      exact List.Perm.append_left _ List.perm_append_comm
    · rw [hcons, hcons, List.append_assoc]
      exact List.Perm.append_left _ ih

theorem HeaderMap.fields_pushAll : (HeaderMap.fields (m.pushAll ps)).Perm (m.fields ++ ps) := by
  induction ps generalizing m with
  | nil => rw [List.append_nil]; exact .refl _
  | cons p ps ih =>
    have hpush : m.pushAll (p :: ps) = (m.push p.1 p.2).pushAll ps := rfl
    rw [hpush]
    refine ih.trans ((HeaderMap.fields_push.append_right ps).trans ?_)
    rw [List.append_assoc]
    exact .refl _

/-! ### The head that is sent -/

theorem mem_fields {p : List Char × List Char} : p ∈ m.fields ↔ ∃ vs, (p.1, vs) ∈ m ∧ p.2 ∈ vs := by
  obtain ⟨k, v⟩ := p
  simp only [HeaderMap.fields, List.mem_flatMap, List.mem_map, Prod.exists, Prod.mk.injEq]
  constructor
  · rintro ⟨k', vs, hmem, w, hw, rfl, rfl⟩
    exact ⟨vs, hmem, hw⟩
  · rintro ⟨vs, hmem, hv⟩
    exact ⟨k, vs, hmem, v, hv, rfl, rfl⟩

theorem onLine_number {k : List Char} (hcolon : ':' ∉ k) (hname : '\n' ∉ k) (htrim : trim k = k) (n : ℕ) :
    OnLine k (Nat.toDigits 10 n) := by
  have hdigit : ∀ c ∈ Nat.toDigits 10 n, 48 ≤ c.toNat ∧ c.toNat ≤ 57 := fun c hc =>
    isDigit_toNat (Nat.isDigit_of_mem_toDigits (by decide) (by decide) hc)
  refine ⟨hcolon, hname, htrim, fun hmem => absurd (hdigit _ hmem).1 (by decide), trim_of_neg fun c hc => ?_⟩
  have := hdigit c hc
  rw [not_isWhitespace (by omega) (by omega)]
  simp

theorem mem_sentHeaders {resp : Response} {p : List Char × List (List Char)} (h : p ∈ sentHeaders resp) :
    (p ∈ resp.headers ∧ skipsInResponse p.1 = false) ∨ p = ("Content-Length".toList, [Nat.toDigits 10 resp.body.length]) ∨
      p = ("Connection".toList, ["close".toList]) := by
  simp only [sentHeaders, List.mem_append, List.mem_filter, List.mem_cons, List.not_mem_nil, or_false,
    Bool.not_eq_true'] at h
  exact h

/-- What is sent of a map that was read can be read again. -/
theorem wellRead_sentHeaders {resp : Response} (h : WellRead resp) : (sentHeaders resp).WellRead := by
  have hskip : skipsInResponse "Content-Length".toList = true ∧ skipsInResponse "Connection".toList = true := by decide
  refine ⟨?_, fun k vs hmem => ?_, fun k vs hmem v hv => ?_⟩
  · -- the two keys that are added are not among those that are copied
    have hkept : ∀ k ∈ (resp.headers.filter fun p => !skipsInResponse p.1).map Prod.fst, skipsInResponse k = false := by
      intro k hk
      obtain ⟨p, hp, rfl⟩ := List.mem_map.1 hk
      simpa using (List.mem_filter.1 hp).2
    rw [sentHeaders, List.map_append, List.nodup_append]
    refine ⟨h.headers.keys.sublist (List.filter_sublist.map Prod.fst), by simp, fun a ha b hb => ?_⟩
    rintro rfl
    have hfalse := hkept a ha
    simp only [List.map_cons, List.map_nil, List.mem_cons, List.not_mem_nil, or_false] at hb
    rcases hb with rfl | rfl
    · rw [hskip.1] at hfalse
      cases hfalse
    · rw [hskip.2] at hfalse
      cases hfalse
  · rcases mem_sentHeaders hmem with ⟨hmem, -⟩ | heq | heq
    · exact h.headers.values k vs hmem
    · rw [(Prod.mk.inj heq).2]
      simp
    · rw [(Prod.mk.inj heq).2]
      simp
  · rcases mem_sentHeaders hmem with ⟨hmem, -⟩ | heq | heq
    · exact h.headers.onLine k vs hmem v hv
    · obtain ⟨rfl, rfl⟩ := Prod.mk.inj heq
      obtain rfl := List.mem_singleton.1 hv
      exact onLine_number (by decide) (by decide) (by decide) _
    · obtain ⟨rfl, rfl⟩ := Prod.mk.inj heq
      obtain rfl := List.mem_singleton.1 hv
      exact ⟨by decide, by decide, by decide, by decide, by decide⟩

theorem foldl_lengthAfter_of_notMem (h : ∀ p ∈ ps, ¬ eqIgnoreAsciiCase p.1 "content-length".toList) :
    ps.foldl lengthAfter contentLength = contentLength := by
  induction ps generalizing contentLength with
  | nil => rfl
  | cons p ps ih =>
    rw [List.foldl_cons, lengthAfter, if_neg (h p (by simp))]
    exact ih fun q hq => h q (List.mem_cons_of_mem _ hq)

theorem fields_sentHeaders (resp : Response) :
    HeaderMap.fields (sentHeaders resp) = HeaderMap.fields (resp.headers.filter fun p => !skipsInResponse p.1) ++
      [("Content-Length".toList, Nat.toDigits 10 resp.body.length), ("Connection".toList, "close".toList)] := by
  simp [HeaderMap.fields, sentHeaders]

theorem skipsInResponse_of_contentLength (h : eqIgnoreAsciiCase k "content-length".toList) : skipsInResponse k := by
  have hlower : toAsciiLowercase "content-length".toList = "content-length".toList := by decide
  simp only [eqIgnoreAsciiCase, decide_eq_true_eq, hlower] at h
  simp [skipsInResponse, h]

theorem not_contentLength_copied {p : List Char × List Char}
    (hp : p ∈ HeaderMap.fields (m.filter fun p => !skipsInResponse p.1)) :
    ¬ eqIgnoreAsciiCase p.1 "content-length".toList := by
  intro hlength
  obtain ⟨vs, hmem, -⟩ := mem_fields.1 hp
  have hskip := (List.mem_filter.1 hmem).2
  simp [skipsInResponse_of_contentLength hlength] at hskip

theorem foldl_lengthAfter_sent {resp : Response} (hbody : resp.body.length < 2 ^ 63) :
    (HeaderMap.fields (sentHeaders resp)).foldl lengthAfter none = some resp.body.length := by
  have hlength : eqIgnoreAsciiCase "Content-Length".toList "content-length".toList = true := by decide
  have hconn : eqIgnoreAsciiCase "Connection".toList "content-length".toList = false := by decide
  have hdigits : ∀ c ∈ Nat.toDigits 10 resp.body.length, c.isDigit := fun c hc =>
    Nat.isDigit_of_mem_toDigits (by decide) (by decide) hc
  rw [fields_sentHeaders, List.foldl_append, foldl_lengthAfter_of_notMem fun _ => not_contentLength_copied,
    List.foldl_cons, List.foldl_cons, List.foldl_nil]
  simp only [lengthAfter, hlength, hconn, Bool.false_eq_true, if_true, if_false]
  rw [parseUnsigned_digits _ Nat.toDigits_ne_nil hdigits, Nat.ofDigitChars_ten_toDigits, if_pos (by omega)]

theorem parseStatusLine_sent {code : ℕ} (hcode : code < 2 ^ 16) :
    parseStatusLine ("HTTP/1.1 ".toList ++ Nat.toDigits 10 code ++ [' '] ++ reasonPhrase code ++ crlf) = .ok code := by
  have hsplit : "HTTP/1.1 ".toList ++ Nat.toDigits 10 code ++ [' '] ++ reasonPhrase code ++ crlf =
      "HTTP/1.1".toList ++ ' ' :: (Nat.toDigits 10 code ++ ' ' :: (reasonPhrase code ++ crlf)) := by simp
  rw [hsplit]
  exact parseStatusLine_code (by simp) (by simp [isWhitespace]) hcode _

theorem notMem_statusLine (code : ℕ) :
    '\n' ∉ "HTTP/1.1 ".toList ++ Nat.toDigits 10 code ++ [' '] ++ reasonPhrase code := by
  have hdigits : '\n' ∉ Nat.toDigits 10 code := fun hmem =>
    absurd (isDigit_toNat (Nat.isDigit_of_mem_toDigits (by decide) (by decide) hmem)).1 (by decide)
  have hreason : '\n' ∉ reasonPhrase code := by
    unfold reasonPhrase
    split <;> simp
  simp [hdigits, hreason]

theorem length_fields_le (ps : List (List Char × List Char)) :
    ps.length ≤ (utf8Encode (ps.flatMap fun p => headerLine p.1 p.2)).length := by
  induction ps with
  | nil => exact Nat.le_refl 0
  | cons p ps ih =>
    have hcrlf : 0 < (utf8Encode crlf).length := by decide
    simp only [List.flatMap_cons, headerLine, utf8Encode_append, List.length_append, List.length_cons] at ih ⊢
    omega

theorem readBody_append {body : List UInt8} (h : body.length < 2 ^ 63) (more : List UInt8) :
    readBody (plain e) (some body.length) (body ++ more) = .ok (body, more) := by
  have hexact : (plain e).readExact body.length (body ++ more) = .ok (body, more) :=
    Plain.readExact_eq_ok.2 ⟨by simp, by simp, by simp⟩
  rw [readBody, if_pos h, hexact]
  rfl

/-- **What is written is read back**, whatever comes after it. -/
theorem decode_writeResponse {resp : Response} (h : WellRead resp) (e : Ending) (more : List UInt8) :
    decode e (writeResponse resp ++ more) = .ok ({ resp with headers := sentHeaders resp }, more) := by
  have hwell := wellRead_sentHeaders h
  have hbytes : writeResponse resp ++ more =
      utf8Encode ("HTTP/1.1 ".toList ++ Nat.toDigits 10 resp.statusCode ++ [' '] ++ reasonPhrase resp.statusCode) ++
        Rfc9112.crlf ++ (utf8Encode ((HeaderMap.fields (sentHeaders resp)).flatMap fun p => headerLine p.1 p.2) ++
          (Rfc9112.crlf ++ (resp.body ++ more))) := by
    rw [writeResponse, responseHead_eq, crlf_eq_encode]
    simp only [utf8Encode_append, List.append_assoc]
  have hlf := notMem_encode (c := '\n') (by decide) (notMem_statusLine resp.statusCode)
  have hturns := length_fields_le (HeaderMap.fields (sentHeaders resp))
  have honline : ∀ p ∈ HeaderMap.fields (sentHeaders resp), OnLine p.1 p.2 := by
    intro p hp
    obtain ⟨vs, hmem, hv⟩ := mem_fields.1 hp
    exact hwell.onLine p.1 vs hmem p.2 hv
  have hlength : (HeaderMap.fields (sentHeaders resp)).length < (writeResponse resp ++ more).length + 1 := by
    rw [hbytes]
    simp only [List.length_append] at hturns ⊢
    omega
  unfold decode readResponseWith
  generalize (writeResponse resp ++ more).length + 1 = turns at hlength
  rw [hbytes, readLine_crlf hlf, utf8Decode_utf8Encode]
  simp only [Except.mapError, bind, Except.bind, parseStatusLine_sent h.code, readRest]
  rw [readHeaders_headerLines honline hlength, foldl_lengthAfter_sent h.body,
    HeaderMap.pushAll_fields _ (by simpa using hwell.keys) hwell.values]
  simp only [readBody_append h.body, List.nil_append]

end RoundTrip

theorem HeaderMap.WellRead.perm {m m' : HeaderMap} (h : m.WellRead) (hperm : m'.Perm m) : m'.WellRead where
  keys := (hperm.map Prod.fst).nodup_iff.2 h.keys
  values k vs hmem := h.values k vs (hperm.mem_iff.1 hmem)
  onLine k vs hmem := h.onLine k vs (hperm.mem_iff.1 hmem)

/-- **The round trip of `read_response` and `write_response`.**  Whatever response `read_response` returns, in whatever
order `write_response` enumerates its header map, whatever bytes follow and however they arrive: `read_response` on what
`write_response` has written returns the same status code and body, and the map without `Connection` and `Content-Length`
in any spelling, but with the two lines of `write_response`; every other key keeps its values in order. -/
theorem readResponse_writeResponse {conn : Stream UInt8} (hconn : ∀ seg ∈ conn.segs, seg ≠ []) {resp : Response}
    {r : BufReader UInt8} (hread : readResponse conn = .ok (resp, r)) {headers : HeaderMap} (hperm : headers.Perm resp.headers)
    {segs : List (List UInt8)} (hsegs : ∀ seg ∈ segs, seg ≠ []) {more : List UInt8}
    (hflat : segs.flatten = writeResponse { resp with headers } ++ more) (e : Ending) :
    ∃ resp' r', readResponse ⟨segs, e⟩ = .ok (resp', r') ∧ resp'.statusCode = resp.statusCode ∧ resp'.body = resp.body ∧
      resp'.headers.Perm (resp.headers.filter (fun p => !skipsInResponse p.1) ++
        [("Content-Length".toList, [Nat.toDigits 10 resp.body.length]), ("Connection".toList, ["close".toList])]) ∧
      r'.buf ++ r'.inner.flat = more := by
  obtain ⟨rest, hdecode, -⟩ := decode_of_readResponse hconn hread
  obtain ⟨hcode, hheaders, hbody⟩ := wellRead_decode hdecode
  have hwell : WellRead { resp with headers } := ⟨hcode, hheaders.perm hperm, hbody⟩
  have hback := decode_writeResponse hwell e more
  rw [← hflat] at hback
  obtain ⟨r', hread', hr'⟩ : ∃ r', readResponse ⟨segs, e⟩ = .ok (_, r') ∧ Reads False e r' more :=
    readResponse_of_decode hsegs hback
  exact ⟨_, r', hread', rfl, rfl, (hperm.filter _).append_right _, hr'.bytes⟩

/-- A response with an empty name, a carriage return inside a value, a repeated name, and `content-length` in small
letters. -/
def oddResponse : List UInt8 :=
  utf8Encode "HTTP/1.1 404 Gone\r\nX: a\rb\r\n: c\r\nX:\r\ncontent-length: 2\r\n\r\n".toList ++ [104, 105]

theorem readResponse_writeResponse_odd :
    ∃ resp r resp' r', readResponse ⟨[oddResponse], .eof⟩ = .ok (resp, r) ∧
      resp.headers = [(['X'], [['a', '\r', 'b'], []]), ([], [['c']]), ("content-length".toList, [['2']])] ∧
      readResponse ⟨[writeResponse { resp with headers := resp.headers.reverse } ++ [7]], .open⟩ = .ok (resp', r') ∧
      resp'.statusCode = resp.statusCode ∧ resp'.body = resp.body ∧ r'.buf ++ r'.inner.flat = [7] := by
  have hodd : (readResponse ⟨[oddResponse], .eof⟩).map Prod.fst =
      .ok ⟨404, [(['X'], [['a', '\r', 'b'], []]), ([], [['c']]), ("content-length".toList, [['2']])], [104, 105]⟩ := by
    decide
  cases hread : readResponse ⟨[oddResponse], .eof⟩ with
  | error a =>
    rw [hread] at hodd
    cases hodd
  | ok p =>
    obtain ⟨resp, r⟩ := p
    rw [hread] at hodd
    obtain rfl := Except.ok.inj hodd
    have hflat : ∀ resp : Response, [writeResponse resp ++ [7]].flatten = writeResponse resp ++ [7] := by simp
    obtain ⟨resp', r', hread', hcode, hbody, -, hrest⟩ := readResponse_writeResponse (by decide) hread
      (List.reverse_perm _) (by simp) (hflat _) .open
    exact ⟨_, r, resp', r', rfl, rfl, hread', hcode, hbody, hrest⟩

end ServiceProxy.Upstream
