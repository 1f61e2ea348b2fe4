import ServiceProxy.ProxyForward

/-!
# Any bytes of a client

`read_http11_request` on any bytes, in any segments and with any end.

* `Block` — the header block that the first loop finds and `httparse` accepts;
* `readHttp11Request_block`, `readHttp11Request_refused` — what is left to do with such a block, and that there is an error
  without one;
* `bodyLoop_short`, `bodyLoop_refused`, `bodyLoop_panic` — how the second loop fails.

`framed_iff`: a request that is returned has the body that its `Content-Length` announces, if and only if the client sent
it so.  The second loop takes the end of the stream for the end of the body, and a length it cannot parse for `0`.
-/

namespace ServiceProxy.ProxyHttp

open ServiceProxy.Lib ServiceProxy.Upstream
open ServiceProxy.Lib.Rfc9112 (valuesOf number?)

/-! ## The header block -/

/-- The header block of `k` bytes with the fields `headers` is found and accepted.  The read that brings its last byte
starts within 1 MiB. -/
structure Block (httparse : List UInt8 → Parsed) (conn : Stream UInt8) (k : ℕ) (headers : List (List Char × List UInt8)) :
    Prop where
  ends : findHeaderEnd conn.flat = some k
  fits : readStart 1024 k conn.segs ≤ 1024 * 1024
  parsed : ∃ len method path, httparse (conn.flat.take k) = .complete len method path headers

/-- How many bytes behind the header block are read with its last byte. -/
def excess (conn : Stream UInt8) (k : ℕ) : ℕ := readEnd 1024 k conn.segs - k

section Scan

variable {httparse : List UInt8 → Parsed} {bs buf : List UInt8} {k turns : ℕ} {conn : Stream UInt8}

theorem findHeaderEnd_take (h : findHeaderEnd bs = some k) : findHeaderEnd (bs.take k) = some k := by
  induction bs generalizing k with
  | nil => simp [findHeaderEnd] at h
  | cons b bs ih =>
    simp only [findHeaderEnd] at h
    split_ifs at h with htake
    · obtain rfl := Option.some.inj h
      rw [htake]
      rfl
    · obtain ⟨j, hj, rfl⟩ := Option.map_eq_some_iff.1 h
      have hlen := (findHeaderEnd_bounds hj).1
      rw [List.take_succ_cons, findHeaderEnd, ← List.take_succ_cons, List.take_take, Nat.min_eq_left (by omega),
        if_neg htake, ih hj]
      rfl

theorem length_lt_of_findHeaderEnd {more : List UInt8} (hbuf : findHeaderEnd buf = none)
    (h : findHeaderEnd (buf ++ more) = some k) : buf.length < k := by
  by_contra hle
  have htake := findHeaderEnd_take h
  rw [List.take_append_of_le_length (by omega)] at htake
  have hfound := findHeaderEnd_append htake (buf.drop k)
  rw [List.take_append_drop, hbuf] at hfound
  cases hfound

/-- **The first loop finds the header block.** -/
theorem readLoop_found (hwf : ∀ seg ∈ conn.segs, seg ≠ []) (hbuf : findHeaderEnd buf = none)
    (hk : findHeaderEnd (buf ++ conn.flat) = some k)
    (hfits : buf.length + readStart 1024 (k - buf.length) conn.segs ≤ 1024 * 1024) (hturns : conn.flat.length < turns) :
    ∃ got conn', readLoop httparse turns buf conn = parseRequest httparse (buf ++ got) k conn' ∧
      conn.flat = got ++ conn'.flat ∧ got.length = readEnd 1024 (k - buf.length) conn.segs ∧ k ≤ buf.length + got.length ∧
      conn'.ending = conn.ending ∧ ∀ seg ∈ conn'.segs, seg ≠ [] := by
  induction turns generalizing buf conn with
  | zero => omega
  | succ turns ih =>
    have hlt := length_lt_of_findHeaderEnd hbuf hk
    obtain ⟨hnil, -⟩ | ⟨b, conn', hread, ht⟩ := read_taken (by decide : 0 < 1024) hwf
    · have hflat : conn.flat = [] := by rw [Stream.flat, hnil, List.flatten_nil]
      rw [hflat, List.append_nil, hbuf] at hk
      cases hk
    · have hempty : b.isEmpty = false := by simpa using ht.nonempty
      have hpos := List.length_pos_iff.2 ht.nonempty
      rw [ht.bytes, ← List.append_assoc] at hk
      rw [readLoop, hread]
      simp only [Except.mapError, bind, Except.bind, hempty, Bool.false_eq_true, if_false]
      cases hfound : findHeaderEnd (buf ++ b) with
      | some k' =>
        obtain rfl : k' = k := Option.some.inj ((findHeaderEnd_append hfound conn'.flat).symm.trans hk)
        have hle := (findHeaderEnd_bounds hfound).2
        rw [List.length_append] at hle
        have hend := (ht.here (k' - buf.length) (by omega) (by omega)).2
        exact ⟨b, conn', rfl, ht.bytes, hend.symm, hle, ht.ending, ht.wf⟩
      | none =>
        have hmore := length_lt_of_findHeaderEnd hfound hk
        rw [List.length_append] at hmore
        have hlater := ht.later (k - buf.length) (by omega)
        have hsub : k - (buf ++ b).length = k - buf.length - b.length := by rw [List.length_append, Nat.sub_sub]
        have hfits' : (buf ++ b).length + readStart 1024 (k - (buf ++ b).length) conn'.segs ≤ 1024 * 1024 := by
          rw [hsub, List.length_append]
          omega
        have hturns' : conn'.flat.length < turns := by
          rw [ht.bytes, List.length_append] at hturns
          omega
        simp only
        rw [if_neg (by omega)]
        obtain ⟨got, conn'', hloop, hflat, hgot, hle, hending, hwf'⟩ := ih ht.wf hfound hk hfits' hturns'
        refine ⟨b ++ got, conn'', by rw [hloop, List.append_assoc], by rw [ht.bytes, hflat, List.append_assoc], ?_, ?_,
          hending.trans ht.ending, hwf'⟩
        · rw [List.length_append, hgot, hsub, hlater.2]
        · rw [List.length_append] at hle ⊢
          omega

/-- **The first loop fails** if there is no header block, or if it comes too late. -/
theorem readLoop_refused (hwf : ∀ seg ∈ conn.segs, seg ≠ []) (hbuf : findHeaderEnd buf = none)
    (hmax : buf.length ≤ 1024 * 1024)
    (hk : ∀ k, findHeaderEnd (buf ++ conn.flat) = some k →
      1024 * 1024 < buf.length + readStart 1024 (k - buf.length) conn.segs) (hturns : conn.flat.length < turns) :
    ∃ a, readLoop httparse turns buf conn = .error a ∧ a.Regular conn.ending := by
  induction turns generalizing buf conn with
  | zero => omega
  | succ turns ih =>
    rw [readLoop]
    obtain ⟨hnil, hread⟩ | ⟨b, conn', hread, ht⟩ := read_taken (by decide : 0 < 1024) hwf
    · rw [hread]
      cases conn.ending with
      | eof => exact ⟨_, rfl, trivial⟩
      | «open» => exact ⟨_, rfl, rfl⟩
      | failed => exact ⟨_, rfl, trivial⟩
    · have hempty : b.isEmpty = false := by simpa using ht.nonempty
      have hpos := List.length_pos_iff.2 ht.nonempty
      rw [hread]
      simp only [Except.mapError, bind, Except.bind, hempty, Bool.false_eq_true, if_false]
      cases hfound : findHeaderEnd (buf ++ b) with
      | some k =>
        have hall := findHeaderEnd_append hfound conn'.flat
        rw [List.append_assoc, ← ht.bytes] at hall
        have hlate := hk k hall
        have hlt := length_lt_of_findHeaderEnd hbuf hall
        have hle := (findHeaderEnd_bounds hfound).2
        rw [List.length_append] at hle
        rw [(ht.here (k - buf.length) (by omega) (by omega)).1] at hlate
        omega
      | none =>
        simp only
        split_ifs with hlong
        · exact ⟨_, rfl, trivial⟩
        · rw [← ht.ending]
          refine ih ht.wf hfound (by omega) (fun k hall => ?_) ?_
          · have hmore := length_lt_of_findHeaderEnd hfound hall
            rw [List.append_assoc, ← ht.bytes] at hall
            have hlate := hk k hall
            rw [List.length_append] at hmore ⊢
            rw [(ht.later (k - buf.length) (by omega)).1, Nat.sub_sub] at hlate
            omega
          · rw [ht.bytes, List.length_append] at hturns
            omega

end Scan

/-! ## The body -/

section Body

variable {contentLength turns : ℕ} {body : List UInt8} {conn : Stream UInt8}

theorem bodyLoop_panic (hturns : contentLength - body.length ≤ turns) (hlarge : 2 ^ 63 ≤ contentLength - body.length) :
    bodyLoop turns contentLength body conn = .error .panic := by
  obtain ⟨turns, rfl⟩ : ∃ n, turns = n + 1 := ⟨turns - 1, by omega⟩
  rw [bodyLoop, if_pos (by omega), if_neg (by omega)]

/-- The buffers only get smaller: if the first one can be allocated, nothing but a `read` fails. -/
theorem bodyLoop_refused {a : Halt StdError} (hwf : ∀ seg ∈ conn.segs, seg ≠ [])
    (hsmall : contentLength - body.length < 2 ^ 63) (h : bodyLoop turns contentLength body conn = .error a) :
    a.Regular conn.ending := by
  induction turns generalizing body conn with
  | zero => cases h
  | succ turns ih =>
    rw [bodyLoop] at h
    split_ifs at h with hlt
    obtain ⟨-, hread⟩ | ⟨b, conn', hread, ht⟩ := read_taken (by omega : 0 < contentLength - body.length) hwf
    · rw [hread] at h
      cases hending : conn.ending with
      | eof =>
        rw [hending] at h
        cases h
      | «open» =>
        rw [hending] at h
        obtain rfl := Except.error.inj h
        rfl
      | failed =>
        rw [hending] at h
        obtain rfl := Except.error.inj h
        trivial
    · have hempty : b.isEmpty = false := by simpa using ht.nonempty
      rw [hread] at h
      simp only [Except.mapError, bind, Except.bind, hempty, Bool.false_eq_true, if_false] at h
      rw [← ht.ending]
      exact ih ht.wf (by rw [List.length_append]; omega) h

theorem bodyLoop_short (hwf : ∀ seg ∈ conn.segs, seg ≠ []) (hending : conn.ending ≠ .eof)
    (hshort : body.length + conn.flat.length < contentLength) (hturns : contentLength - body.length ≤ turns) :
    ∃ a, bodyLoop turns contentLength body conn = .error a := by
  induction turns generalizing body conn with
  | zero => omega
  | succ turns ih =>
    rw [bodyLoop, if_pos (by omega)]
    split_ifs with hsmall
    · obtain ⟨hnil, hread⟩ | ⟨b, conn', hread, ht⟩ := read_taken (by omega : 0 < contentLength - body.length) hwf
      · rw [hread]
        cases hend : conn.ending with
        | eof => exact absurd hend hending
        | «open» => exact ⟨_, rfl⟩
        | failed => exact ⟨_, rfl⟩
      · have hempty : b.isEmpty = false := by simpa using ht.nonempty
        have hpos := List.length_pos_iff.2 ht.nonempty
        rw [ht.bytes, List.length_append] at hshort
        rw [hread]
        simp only [Except.mapError, bind, Except.bind, hempty, Bool.false_eq_true, if_false]
        refine ih ht.wf (by rw [ht.ending]; exact hending) ?_ ?_
        · rw [List.length_append]
          omega
        · rw [List.length_append]
          omega
    · exact ⟨_, rfl⟩

end Body

/-! ## The request -/

section Request

variable {httparse : List UInt8 → Parsed} {conn : Stream UInt8} {k : ℕ} {headers : List (List Char × List UInt8)}

theorem parseRequest_complete {buf : List UInt8} {len : ℕ} {method path : Option (List Char)}
    (h : httparse (buf.take k) = .complete len method path headers) (conn : Stream UInt8) :
    parseRequest httparse buf k conn =
      (bodyLoop ((collect headers).contentLength - (buf.drop k).length) (collect headers).contentLength (buf.drop k) conn >>=
        fun p => .ok ({ method := method.getD "GET".toList, path := path.getD "/".toList, host := (collect headers).host
                        headers := (collect headers).headers, body := p.1.take (collect headers).contentLength }, p.2)) := by
  unfold parseRequest
  rw [h]

theorem parseRequest_refused {buf : List UInt8} {e : Ending}
    (h : ∀ len method path headers, httparse (buf.take k) ≠ .complete len method path headers) (conn : Stream UInt8) :
    ∃ a, parseRequest httparse buf k conn = .error a ∧ a.Regular e := by
  unfold parseRequest
  cases hparsed : httparse (buf.take k) with
  | complete len method path headers => exact absurd hparsed (h len method path headers)
  | incomplete => exact ⟨_, rfl, trivial⟩
  | error msg => exact ⟨_, rfl, trivial⟩

/-- The header loop has read the header block and `excess` bytes more. -/
theorem readHttp11Request_found (httparse : List UInt8 → Parsed) (hwf : ∀ seg ∈ conn.segs, seg ≠ [])
    (hends : findHeaderEnd conn.flat = some k) (hfits : readStart 1024 k conn.segs ≤ 1024 * 1024) :
    ∃ buf conn', readHttp11Request httparse conn = parseRequest httparse buf k conn' ∧ buf.take k = conn.flat.take k ∧
      buf.drop k ++ conn'.flat = conn.flat.drop k ∧ (buf.drop k).length = excess conn k ∧
      conn'.ending = conn.ending ∧ ∀ seg ∈ conn'.segs, seg ≠ [] := by
  have hnil : findHeaderEnd [] = none := rfl
  obtain ⟨got, conn', hloop, hflat, hgot, hle, hending, hwf'⟩ :=
    readLoop_found hwf hnil hends (by simpa using hfits) (Nat.lt_succ_self _)
  have hle : k ≤ got.length := by simpa using hle
  refine ⟨got, conn', hloop, ?_, ?_, ?_, hending, hwf'⟩
  · rw [hflat, List.take_append_of_le_length hle]
  · rw [hflat, List.drop_append_of_le_length hle]
  · rw [List.length_drop, hgot]
    rfl

/-- **Without such a block there is an error.** -/
theorem readHttp11Request_refused (hwf : ∀ seg ∈ conn.segs, seg ≠ []) (h : ∀ k headers, ¬ Block httparse conn k headers) :
    ∃ a, readHttp11Request httparse conn = .error a ∧ a.Regular conn.ending := by
  by_cases hfound : ∃ k, findHeaderEnd conn.flat = some k ∧ readStart 1024 k conn.segs ≤ 1024 * 1024
  · obtain ⟨k, hends, hfits⟩ := hfound
    obtain ⟨buf, conn', hread, htake, -⟩ := readHttp11Request_found httparse hwf hends hfits
    rw [hread]
    refine parseRequest_refused (fun len method path headers hparsed => ?_) conn'
    rw [htake] at hparsed
    exact h k headers ⟨hends, hfits, len, method, path, hparsed⟩
  · refine readLoop_refused hwf rfl (Nat.zero_le _) (fun k hends => ?_) (Nat.lt_succ_self _)
    by_contra hfits
    exact hfound ⟨k, hends, by simpa using hfits⟩

/-- **A request with such a block**, when the body has come or the client has closed its side. -/
theorem readHttp11Request_block (hwf : ∀ seg ∈ conn.segs, seg ≠ []) (h : Block httparse conn k headers)
    (henough : conn.ending = .eof ∨ (collect headers).contentLength ≤ (conn.flat.drop k).length)
    (hsmall : (collect headers).contentLength - excess conn k < 2 ^ 63) :
    ∃ req conn', readHttp11Request httparse conn = .ok (req, conn') ∧
      req.body = (conn.flat.drop k).take (collect headers).contentLength := by
  obtain ⟨buf, conn', hread, htake, hdrop, hexcess, hending', hwf'⟩ :=
    readHttp11Request_found httparse hwf h.ends h.fits
  obtain ⟨len, method, path, hparsed⟩ := h.parsed
  rw [← htake] at hparsed
  rw [← hdrop, List.length_append, ← hending'] at henough
  obtain ⟨body, conn'', hbody, hbytes⟩ := bodyLoop_ok hwf' henough (Nat.le_refl _) (by rw [hexcess]; exact hsmall)
  rw [hread, parseRequest_complete hparsed, hbody]
  exact ⟨_, _, rfl, by rw [← hdrop]; exact hbytes⟩

/-- The client has sent a request, as far as `read_http11_request` can tell. -/
def Received (httparse : List UInt8 → Parsed) (conn : Stream UInt8) : Prop :=
  ∃ k headers, Block httparse conn k headers ∧
    (conn.ending = .eof ∨ (collect headers).contentLength ≤ (conn.flat.drop k).length)

theorem received_of_ok {p : Request × Stream UInt8} (hwf : ∀ seg ∈ conn.segs, seg ≠ [])
    (h : readHttp11Request httparse conn = .ok p) : Received httparse conn := by
  by_cases hblock : ∃ k headers, Block httparse conn k headers
  · obtain ⟨k, headers, hb⟩ := hblock
    refine ⟨k, headers, hb, ?_⟩
    by_contra hshort
    rw [not_or] at hshort
    obtain ⟨buf, conn', hread, htake, hdrop, -, hending, hwf'⟩ := readHttp11Request_found httparse hwf hb.ends hb.fits
    obtain ⟨len, method, path, hparsed⟩ := hb.parsed
    rw [← htake] at hparsed
    rw [← hdrop, List.length_append, ← hending] at hshort
    obtain ⟨a, ha⟩ := bodyLoop_short hwf' hshort.1 (Nat.not_le.1 hshort.2) (Nat.le_refl _)
    rw [hread, parseRequest_complete hparsed, ha] at h
    cases h
  · obtain ⟨a, ha, -⟩ := readHttp11Request_refused hwf fun k headers hb => hblock ⟨k, headers, hb⟩
    rw [ha] at h
    cases h

/-- The client announces more bytes than can be allocated. -/
def Excessive (httparse : List UInt8 → Parsed) (conn : Stream UInt8) : Prop :=
  ∃ k headers, Block httparse conn k headers ∧ 2 ^ 63 ≤ (collect headers).contentLength - excess conn k

/-- **How `read_http11_request` fails.** -/
theorem readHttp11Request_error {a : Halt StdError} (hwf : ∀ seg ∈ conn.segs, seg ≠ [])
    (herr : readHttp11Request httparse conn = .error a) :
    Excessive httparse conn ∧ a = .panic ∨ a.Regular conn.ending := by
  by_cases hblock : ∃ k headers, Block httparse conn k headers
  · obtain ⟨k, headers, h⟩ := hblock
    obtain ⟨buf, conn', hread, htake, -, hexcess, hending, hwf'⟩ := readHttp11Request_found httparse hwf h.ends h.fits
    obtain ⟨len, method, path, hparsed⟩ := h.parsed
    rw [← htake] at hparsed
    rw [hread, parseRequest_complete hparsed, hexcess] at herr
    rcases bind_eq_error.1 herr with herr | ⟨p, -, herr⟩
    · by_cases hsmall : (collect headers).contentLength - excess conn k < 2 ^ 63
      · rw [← hending]
        exact .inr (bodyLoop_refused hwf' (by rw [hexcess]; exact hsmall) herr)
      · rw [bodyLoop_panic (by rw [hexcess]) (by rw [hexcess]; omega)] at herr
        exact .inl ⟨⟨k, headers, h, Nat.not_lt.1 hsmall⟩, (Except.error.inj herr).symm⟩
    · cases herr
  · obtain ⟨b, hb, hregular⟩ := readHttp11Request_refused hwf fun k headers h => hblock ⟨k, headers, h⟩
    obtain rfl := Except.error.inj (hb.symm.trans herr)
    exact .inr hregular

/-- **It panics** when the client announces more than can be allocated. -/
theorem readHttp11Request_excessive (hwf : ∀ seg ∈ conn.segs, seg ≠ []) (h : Excessive httparse conn) :
    readHttp11Request httparse conn = .error .panic := by
  obtain ⟨k, headers, h, hlarge⟩ := h
  obtain ⟨buf, conn', hread, htake, -, hexcess, -⟩ := readHttp11Request_found httparse hwf h.ends h.fits
  obtain ⟨len, method, path, hparsed⟩ := h.parsed
  rw [← htake] at hparsed
  rw [hread, parseRequest_complete hparsed, bodyLoop_panic (Nat.le_refl _) (by rw [hexcess]; exact hlarge)]
  rfl

end Request

/-! ## Requests that are complete -/

/-- The header block announces `n` bytes: all its values of `Content-Length` are the same digits, which denote `n`. -/
def Announces (headers : List (List Char × List UInt8)) (n : ℕ) : Prop :=
  ∃ v, number? v = some n ∧ valuesOf Rfc9112.contentLength headers ≠ [] ∧
    ∀ w ∈ valuesOf Rfc9112.contentLength headers, w = v

/-- `body` is what the header block announces of the bytes behind it. -/
def Framed (headers : List (List Char × List UInt8)) (rest body : List UInt8) : Prop :=
  valuesOf Rfc9112.contentLength headers = [] ∧ body = [] ∨
    ∃ n, Announces headers n ∧ n ≤ rest.length ∧ body = rest.take n

/-- **No request is returned that is not complete**: `read_http11_request` returns an error, or a request whose body is
what its header block announces. -/
def OnlyComplete (httparse : List UInt8 → Parsed) (conn : Stream UInt8) : Prop :=
  (∃ a, readHttp11Request httparse conn = .error (.err a)) ∨
    ∃ req conn' k len method path headers, readHttp11Request httparse conn = .ok (req, conn') ∧
      findHeaderEnd conn.flat = some k ∧ httparse (conn.flat.take k) = .complete len method path headers ∧
      Framed headers (conn.flat.drop k) req.body

/-- What the client sends: a header block that is accepted announces nothing, or bytes that follow it and can be
allocated. -/
def SentComplete (httparse : List UInt8 → Parsed) (conn : Stream UInt8) : Prop :=
  ∀ k headers, Block httparse conn k headers → valuesOf Rfc9112.contentLength headers = [] ∨
    ∃ n, Announces headers n ∧ n ≤ (conn.flat.drop k).length ∧ n - excess conn k < 2 ^ 63

section Complete

variable {httparse : List UInt8 → Parsed} {conn : Stream UInt8} {k n : ℕ} {headers : List (List Char × List UInt8)}

theorem collect_length_of_values_nil (h : valuesOf Rfc9112.contentLength headers = []) :
    (collect headers).contentLength = 0 := by
  rw [collect_length, h]
  rfl

theorem collect_length_of_announces (h : Announces headers n) :
    (collect headers).contentLength = if n < 2 ^ 64 then n else 0 := by
  obtain ⟨v, hv, hne, hall⟩ := h
  rw [collect_length, List.getLast?_eq_some_getLast hne, hall _ (List.getLast_mem hne), ← lengthIn_of_number? hv]
  rfl

theorem excess_lt (h : findHeaderEnd conn.flat = some k) : excess conn k < 1024 := by
  have hpos := (findHeaderEnd_bounds h).1
  have := readEnd_lt (by decide : 0 < 1024) (by omega : 0 < k) conn.segs
  unfold excess
  omega

/-- **Which clients `read_http11_request` understands**, whatever the segments. -/
theorem onlyComplete_iff (hwf : ∀ seg ∈ conn.segs, seg ≠ []) (hending : conn.ending = .eof) :
    OnlyComplete httparse conn ↔ SentComplete httparse conn := by
  constructor
  · intro honly k headers h
    have hsmall : (collect headers).contentLength - excess conn k < 2 ^ 63 := by
      by_contra hlarge
      have hpanic := readHttp11Request_excessive hwf ⟨k, headers, h, Nat.not_lt.1 hlarge⟩
      rcases honly with ⟨a, ha⟩ | ⟨req, conn', -, -, -, -, -, hread, -⟩
      · rw [ha] at hpanic
        cases hpanic
      · rw [hread] at hpanic
        cases hpanic
    obtain ⟨req, conn', hread, hbody⟩ := readHttp11Request_block hwf h (.inl hending) hsmall
    obtain ⟨len, method, path, hparsed⟩ := h.parsed
    rcases honly with ⟨a, ha⟩ | ⟨req', conn'', k', len', method', path', headers', hread', hends, hparsed', hframed⟩
    · rw [ha] at hread
      cases hread
    · obtain rfl := Option.some.inj (h.ends.symm.trans hends)
      obtain ⟨rfl, rfl⟩ := Prod.mk.inj (Except.ok.inj (hread.symm.trans hread'))
      obtain ⟨-, -, -, rfl⟩ := Parsed.complete.inj (hparsed.symm.trans hparsed')
      rcases hframed with ⟨hnil, -⟩ | ⟨n, hn, hle, hbody'⟩
      · exact .inl hnil
      · have hlength := collect_length_of_announces hn
        -- a length that is no `usize` counts as `0`, and then the body is too short
        have husize : n < 2 ^ 64 := by
          by_contra hlarge
          rw [if_neg hlarge] at hlength
          rw [hlength, List.take_zero] at hbody
          have hlen := congrArg List.length (hbody.symm.trans hbody')
          rw [List.length_take, List.length_nil] at hlen
          omega
        rw [hlength, if_pos husize] at hsmall
        exact .inr ⟨n, hn, hle, hsmall⟩
  · intro hsent
    by_cases hblock : ∃ k headers, Block httparse conn k headers
    · obtain ⟨k, headers, h⟩ := hblock
      obtain ⟨len, method, path, hparsed⟩ := h.parsed
      rcases hsent k headers h with hnil | ⟨n, hn, hle, hsmall⟩
      · have hlength := collect_length_of_values_nil hnil
        obtain ⟨req, conn', hread, hbody⟩ := readHttp11Request_block hwf h (.inl hending) (by rw [hlength]; omega)
        rw [hlength, List.take_zero] at hbody
        exact .inr ⟨req, conn', k, len, method, path, headers, hread, h.ends, hparsed, .inl ⟨hnil, hbody⟩⟩
      · have hlength : (collect headers).contentLength = n := by
          have := excess_lt h.ends
          rw [collect_length_of_announces hn, if_pos (by omega)]
        obtain ⟨req, conn', hread, hbody⟩ := readHttp11Request_block hwf h (.inl hending) (by rw [hlength]; exact hsmall)
        rw [hlength] at hbody
        exact .inr ⟨req, conn', k, len, method, path, headers, hread, h.ends, hparsed, .inr ⟨n, hn, hle, hbody⟩⟩
    · obtain ⟨a, ha, hregular⟩ := readHttp11Request_refused hwf fun k headers h => hblock ⟨k, headers, h⟩
      obtain ⟨x, rfl⟩ := hregular.err (by rw [hending]; nofun)
      exact .inl ⟨x, ha⟩

/-- `POST /` with a `Content-Length`, and the bytes `hi` behind the header block. -/
def postHi (length : Char) : List UInt8 :=
  utf8Encode ("POST / HTTP/1.1\r\nContent-Length: ".toList ++ length :: "\r\n\r\nhi".toList)

theorem findHeaderEnd_postHi : findHeaderEnd (postHi '2') = some 38 ∧ findHeaderEnd (postHi '5') = some 38 := by decide

theorem parseHead_postHi :
    parseHead ((postHi '2').take 38) =
      .complete 38 (some "POST".toList) (some "/".toList) [("Content-Length".toList, [50])] ∧
    parseHead ((postHi '5').take 38) =
      .complete 38 (some "POST".toList) (some "/".toList) [("Content-Length".toList, [53])] := by decide

/-- The two bytes that are announced, in a segment of their own. -/
theorem onlyComplete_iff_post : OnlyComplete parseHead ⟨[(postHi '2').take 38, (postHi '2').drop 38], .eof⟩ := by
  refine (onlyComplete_iff (by decide) rfl).2 fun k headers h => ?_
  have hflat : (⟨[(postHi '2').take 38, (postHi '2').drop 38], .eof⟩ : Stream UInt8).flat = postHi '2' := by decide
  obtain ⟨hends, -, len, method, path, hparsed⟩ := h
  rw [hflat] at hends hparsed ⊢
  obtain rfl := Option.some.inj (findHeaderEnd_postHi.1.symm.trans hends)
  obtain ⟨-, -, -, rfl⟩ := Parsed.complete.inj (parseHead_postHi.1.symm.trans hparsed)
  exact .inr ⟨2, ⟨[50], by decide, by decide, by decide⟩, by decide, by decide⟩

/-- **The counter-example.**  The client announces five bytes, sends two and closes its side.  The request is returned with
a body of two bytes, and `write_request` announces two bytes to the upstream. -/
theorem short_body_returned :
    ¬ ∀ (httparse : List UInt8 → Parsed), HttparseSpec httparse → ∀ conn : Stream UInt8, (∀ seg ∈ conn.segs, seg ≠ []) →
      conn.ending = .eof → OnlyComplete httparse conn := by
  intro hall
  have hread : (readHttp11Request parseHead ⟨[postHi '5'], .eof⟩).map (fun p => p.1.body) = .ok [104, 105] := by decide
  have hflat : (⟨[postHi '5'], .eof⟩ : Stream UInt8).flat = postHi '5' := by decide
  rcases hall parseHead parseHead_spec ⟨[postHi '5'], .eof⟩ (by decide) rfl with
    ⟨a, ha⟩ | ⟨req, conn', k, len, method, path, headers, -, hends, hparsed, hframed⟩
  · rw [ha] at hread
    cases hread
  · rw [hflat] at hends hparsed hframed
    obtain rfl := Option.some.inj (findHeaderEnd_postHi.2.symm.trans hends)
    obtain ⟨-, -, -, rfl⟩ := Parsed.complete.inj (parseHead_postHi.2.symm.trans hparsed)
    have hvalues : valuesOf Rfc9112.contentLength [("Content-Length".toList, [53])] = [[53]] := by decide
    rcases hframed with ⟨hnil, -⟩ | ⟨n, ⟨v, hv, -, hsame⟩, hle, -⟩
    · rw [hvalues] at hnil
      cases hnil
    · rw [hvalues] at hsame
      obtain rfl : [53] = v := hsame [53] (by simp)
      obtain rfl : n = 5 := Option.some.inj (hv.symm.trans (by decide))
      exact absurd hle (by decide)

end Complete

end ServiceProxy.ProxyHttp
