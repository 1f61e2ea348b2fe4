import ServiceProxy.ProxyFraming

/-!
# The segments of a client

TCP cuts a client's bytes into segments as it likes.  `requestIn` says what the request is from the bytes alone, and
`readHttp11Request_eq` that every cut gives it.

* `findHeaderEnd_eq_some_iff`, `findHeaderEnd_eq_none_iff` — what `find_header_end` finds;
* `readLoopHeld` — the first loop, with the buffers it has held;
* `length_held` — it never holds more than 1 MiB and one more read.

`segments_alike`: two cuts of the same bytes give the same result; where no header block ends in time, every cut gives an
error with a bounded buffer.
-/

namespace ServiceProxy.ProxyHttp

open ServiceProxy.Lib ServiceProxy.Upstream

/-! ## The first CRLFCRLF -/

def blankLine : List UInt8 := [13, 10, 13, 10]

/-- The first CRLFCRLF of the bytes ends behind `k` of them. -/
structure FirstBlankLine (bs : List UInt8) (k : ℕ) : Prop where
  within : k ≤ bs.length
  ends : blankLine <:+ bs.take k
  first : ∀ j < k, ¬ blankLine <:+ bs.take j

section First

variable {bs : List UInt8} {k : ℕ}

theorem findHeaderEnd_eq_none_iff : findHeaderEnd bs = none ↔ ¬ blankLine <:+: bs := by
  induction bs with
  | nil => simp [findHeaderEnd, blankLine]
  | cons b bs ih =>
    have hprefix : (b :: bs).take 4 = blankLine ↔ blankLine <+: b :: bs := by
      rw [List.prefix_iff_eq_take]
      exact eq_comm
    rw [findHeaderEnd, List.infix_cons_iff, ← hprefix, ← blankLine]
    by_cases htake : (b :: bs).take 4 = blankLine
    · rw [if_pos htake]
      exact iff_of_false (Option.some_ne_none 4) fun h => h (.inl htake)
    · rw [if_neg htake, Option.map_eq_none_iff, ih, or_iff_right htake]

/-- **`find_header_end` finds the first CRLFCRLF.** -/
theorem findHeaderEnd_eq_some_iff : findHeaderEnd bs = some k ↔ FirstBlankLine bs k := by
  have hfound : ∀ {k}, findHeaderEnd bs = some k → FirstBlankLine bs k := by
    intro k h
    refine ⟨(findHeaderEnd_bounds h).2, findHeaderEnd_suffix h, fun j hj hends => ?_⟩
    -- an earlier one is found earlier
    cases hearly : findHeaderEnd (bs.take j) with
    | none => exact findHeaderEnd_eq_none_iff.1 hearly hends.isInfix
    | some i =>
      have hall := findHeaderEnd_append hearly (bs.drop j)
      rw [List.take_append_drop, h] at hall
      obtain rfl := Option.some.inj hall
      have hle := (findHeaderEnd_bounds hearly).2
      rw [List.length_take] at hle
      omega
  constructor
  · exact hfound
  · intro h
    cases hfind : findHeaderEnd bs with
    | none => exact absurd (h.ends.isInfix.trans (List.take_prefix k bs).isInfix) (findHeaderEnd_eq_none_iff.1 hfind)
    | some i =>
      have hi := hfound hfind
      rcases Nat.lt_trichotomy i k with hlt | heq | hlt
      · exact absurd hi.ends (h.first i hlt)
      · rw [heq]
      · exact absurd h.ends (hi.first k hlt)

end First

/-! ## The request in the bytes -/

/-- The request in the bytes `bs` of a client that has closed its side, with a header block of `k` bytes. -/
def requestIn (httparse : List UInt8 → Parsed) (bs : List UInt8) (k : ℕ) : Except StdError Request :=
  match httparse (bs.take k) with
  | .incomplete => .error ⟨.unexpectedEof, "partial headers".toList⟩
  | .error msg => .error ⟨.invalidData, msg⟩
  | .complete _ method path headers =>
    .ok { method := method.getD "GET".toList
          path := path.getD "/".toList
          host := (collect headers).host
          headers := (collect headers).headers
          body := (bs.drop k).take (collect headers).contentLength }

/-- The length that the last `Content-Length` field announces, zero without one. -/
def announced (headers : List (List Char × List UInt8)) : ℕ :=
  ((Rfc9112.valuesOf Rfc9112.contentLength headers).getLast?.map lengthIn).getD 0

/-- The header block of `k` bytes, if it is accepted, announces at most `isize::MAX` bytes. -/
def Allocatable (httparse : List UInt8 → Parsed) (bs : List UInt8) (k : ℕ) : Prop :=
  ∀ len method path headers, httparse (bs.take k) = .complete len method path headers → announced headers < 2 ^ 63

/-- `segs` is a way of cutting `bs` into segments. -/
structure Cut (bs : List UInt8) (segs : List (List UInt8)) : Prop where
  bytes : segs.flatten = bs
  nonempty : ∀ seg ∈ segs, seg ≠ []

section Cuts

variable {httparse : List UInt8 → Parsed} {bs : List UInt8} {segs : List (List UInt8)} {k : ℕ}

/-- **Every cut gives the request in the bytes.** -/
theorem readHttp11Request_eq (hcut : Cut bs segs) (hends : findHeaderEnd bs = some k) (hk : k ≤ 1024 * 1024)
    (hsmall : Allocatable httparse bs k) :
    (readHttp11Request httparse ⟨segs, .eof⟩).map Prod.fst = (requestIn httparse bs k).mapError .err := by
  have hflat : (⟨segs, .eof⟩ : Stream UInt8).flat = bs := hcut.bytes
  have hfits : readStart 1024 k segs ≤ 1024 * 1024 := by
    have hpos := (findHeaderEnd_bounds hends).1
    have hlt : readStart 1024 k segs < k := readStart_lt (by omega) segs
    omega
  have hsegs : ∀ seg ∈ (⟨segs, .eof⟩ : Stream UInt8).segs, seg ≠ [] := hcut.nonempty
  obtain ⟨buf, conn, hread, htake, hdrop, -, hending, hwf⟩ :=
    readHttp11Request_found httparse hsegs (hflat.symm ▸ hends) hfits
  rw [hflat] at htake hdrop
  rw [hread]
  cases hparsed : httparse (bs.take k) with
  | incomplete =>
    unfold parseRequest requestIn
    rw [htake, hparsed]
    rfl
  | error msg =>
    unfold parseRequest requestIn
    rw [htake, hparsed]
    rfl
  | complete len method path headers =>
    have hlength : (collect headers).contentLength < 2 ^ 63 := (collect_length headers).trans_lt (hsmall _ _ _ _ hparsed)
    have hturns : (collect headers).contentLength - (buf.drop k).length ≤
        (collect headers).contentLength - (buf.drop k).length := Nat.le_refl _
    obtain ⟨body, conn', hloop, hbody⟩ := bodyLoop_ok hwf (.inl hending) hturns (by omega)
    rw [hdrop] at hbody
    unfold requestIn
    rw [parseRequest_complete (htake ▸ hparsed), hloop, hparsed]
    simp only [bind, Except.bind, Except.map, Except.mapError, hbody]

end Cuts

/-! ## The buffer -/

/-- `readLoop`, with the values that `buf` takes. -/
def readLoopHeld (httparse : List UInt8 → Parsed) :
    ℕ → List UInt8 → Stream UInt8 → List (List UInt8) × Except (Halt StdError) (Request × Stream UInt8)
  | 0, buf, _ => ([buf], .error .pending)
  | turns + 1, buf, conn =>
    match (conn.read 1024).mapError (Halt.map .ofRead) with
    | .error a => ([buf], .error a)
    | .ok (tmp, conn) =>
      if tmp.isEmpty then
        ([buf], .error (.err ⟨.unexpectedEof, "eof before headers".toList⟩))
      else
        match findHeaderEnd (buf ++ tmp) with
        | some hdrEnd => ([buf, buf ++ tmp], parseRequest httparse (buf ++ tmp) hdrEnd conn)
        | none =>
          if 1024 * 1024 < (buf ++ tmp).length then
            ([buf, buf ++ tmp], .error (.err ⟨.invalidData, "headers too large".toList⟩))
          else
            let (held, result) := readLoopHeld httparse turns (buf ++ tmp) conn
            (buf :: held, result)

/-- `readHttp11Request`, with the values that `buf` takes. -/
def readHttp11RequestHeld (httparse : List UInt8 → Parsed) (conn : Stream UInt8) :
    List (List UInt8) × Except (Halt StdError) (Request × Stream UInt8) :=
  readLoopHeld httparse (conn.flat.length + 1) [] conn

section Held

variable {httparse : List UInt8 → Parsed} {bs buf : List UInt8} {conn : Stream UInt8} {turns : ℕ}

theorem readLoopHeld_snd (httparse : List UInt8 → Parsed) (turns : ℕ) (buf : List UInt8) (conn : Stream UInt8) :
    (readLoopHeld httparse turns buf conn).2 = readLoop httparse turns buf conn := by
  induction turns generalizing buf conn with
  | zero => rfl
  | succ turns ih =>
    rw [readLoopHeld, readLoop]
    cases (conn.read 1024).mapError (Halt.map StdError.ofRead) with
    | error a => rfl
    | ok p =>
      obtain ⟨tmp, conn'⟩ := p
      simp only [bind, Except.bind]
      by_cases hempty : tmp.isEmpty = true
      · rw [if_pos hempty, if_pos hempty]
      · rw [if_neg hempty, if_neg hempty]
        cases findHeaderEnd (buf ++ tmp) with
        | some k => rfl
        | none =>
          simp only
          split_ifs with hlong
          · rfl
          · exact ih _ _

theorem readHttp11RequestHeld_snd (httparse : List UInt8 → Parsed) (conn : Stream UInt8) :
    (readHttp11RequestHeld httparse conn).2 = readHttp11Request httparse conn :=
  readLoopHeld_snd httparse _ [] conn

/-- **The buffer is bounded**: a read starts only while it holds at most 1 MiB. -/
theorem length_held (hbuf : buf.length ≤ 1024 * 1024) :
    ∀ held ∈ (readLoopHeld httparse turns buf conn).1, held.length ≤ 1024 * 1024 + 1024 := by
  induction turns generalizing buf conn with
  | zero =>
    simp only [readLoopHeld, List.mem_singleton, forall_eq]
    omega
  | succ turns ih =>
    rw [readLoopHeld]
    cases hread : conn.read 1024 with
    | error a =>
      simp only [Except.mapError, List.mem_singleton, forall_eq]
      omega
    | ok p =>
      obtain ⟨tmp, conn'⟩ := p
      have htmp : (buf ++ tmp).length ≤ 1024 * 1024 + 1024 := by
        have := Stream.length_read_le hread
        rw [List.length_append]
        omega
      simp only [Except.mapError]
      by_cases hempty : tmp.isEmpty = true
      · rw [if_pos hempty]
        simp only [List.mem_singleton, forall_eq]
        omega
      · rw [if_neg hempty]
        cases findHeaderEnd (buf ++ tmp) with
        | some k =>
          simp only [List.mem_cons, List.not_mem_nil, or_false, forall_eq_or_imp, forall_eq]
          omega
        | none =>
          simp only
          split_ifs with hlong
          · simp only [List.mem_cons, List.not_mem_nil, or_false, forall_eq_or_imp, forall_eq]
            omega
          · simp only [List.mem_cons, forall_eq_or_imp]
            exact ⟨by omega, ih (by omega)⟩

end Held

/-! ## Two cuts of the same bytes -/

section Alike

variable {httparse : List UInt8 → Parsed} {bs : List UInt8} {segs : List (List UInt8)} {n : ℕ}

theorem lt_of_findHeaderEnd_take {k : ℕ} (hnone : findHeaderEnd (bs.take n) = none) (h : findHeaderEnd bs = some k) :
    n < k := by
  by_contra hle
  have hfound := findHeaderEnd_append (findHeaderEnd_take h) ((bs.drop k).take (n - k))
  rw [← List.take_add, show k + (n - k) = n by omega, hnone] at hfound
  cases hfound

/-- **Without a header block in time every cut is refused.** -/
theorem readHttp11Request_late (hcut : Cut bs segs) (hnone : findHeaderEnd (bs.take (1024 * 1024 + 1024)) = none) :
    ∃ a, readHttp11Request httparse ⟨segs, .eof⟩ = .error (.err a) := by
  have hflat : (⟨segs, .eof⟩ : Stream UInt8).flat = bs := hcut.bytes
  have hblock : ∀ k headers, ¬ Block httparse ⟨segs, .eof⟩ k headers := by
    rintro k headers ⟨hends, hfits, -⟩
    have hlen := (findHeaderEnd_bounds hends).2
    rw [hflat] at hends
    have hlate := lt_of_findHeaderEnd_take hnone hends
    have hstart : k ≤ readStart 1024 k segs + 1024 := le_readStart_add (by decide) hlen
    simp only at hfits
    omega
  have hsegs : ∀ seg ∈ (⟨segs, .eof⟩ : Stream UInt8).segs, seg ≠ [] := hcut.nonempty
  obtain ⟨a, hread, hregular⟩ := readHttp11Request_refused hsegs hblock
  obtain ⟨x, rfl⟩ := hregular.err nofun
  exact ⟨x, hread⟩

/-- **Segmentation does not matter.**  If the first CRLFCRLF of the bytes ends within 1 MiB, any two cuts give the same request
or the same error, and the body of the request is what is there of the announced bytes.  If there is no CRLFCRLF in the first
1 MiB + 1 KiB, every cut gives an error, and the buffer never exceeds 1 MiB + 1 KiB. -/
theorem segments_alike (httparse : List UInt8 → Parsed) (bs : List UInt8) :
    (∀ k, FirstBlankLine bs k → k ≤ 1024 * 1024 → Allocatable httparse bs k →
      ∀ segs segs', Cut bs segs → Cut bs segs' →
        (readHttp11Request httparse ⟨segs, .eof⟩).map Prod.fst = (readHttp11Request httparse ⟨segs', .eof⟩).map Prod.fst ∧
        ((∃ a, readHttp11Request httparse ⟨segs, .eof⟩ = .error (.err a)) ∨
          ∃ req conn len method path headers, readHttp11Request httparse ⟨segs, .eof⟩ = .ok (req, conn) ∧
            httparse (bs.take k) = .complete len method path headers ∧
            req.body = (bs.drop k).take (min (announced headers) (bs.drop k).length))) ∧
    (¬ blankLine <:+: bs.take (1024 * 1024 + 1024) → ∀ segs, Cut bs segs →
      (∃ a, readHttp11Request httparse ⟨segs, .eof⟩ = .error (.err a)) ∧
      (readHttp11RequestHeld httparse ⟨segs, .eof⟩).2 = readHttp11Request httparse ⟨segs, .eof⟩ ∧
      ∀ held ∈ (readHttp11RequestHeld httparse ⟨segs, .eof⟩).1, held.length ≤ 1024 * 1024 + 1024) := by
  constructor
  · intro k hfirst hk hsmall segs segs' hcut hcut'
    have hends := findHeaderEnd_eq_some_iff.2 hfirst
    have hread := readHttp11Request_eq hcut hends hk hsmall
    refine ⟨hread.trans (readHttp11Request_eq hcut' hends hk hsmall).symm, ?_⟩
    cases hresult : readHttp11Request httparse ⟨segs, .eof⟩ with
    | error a =>
      rw [hresult] at hread
      cases hrequest : requestIn httparse bs k with
      | error x =>
        rw [hrequest] at hread
        obtain rfl : a = .err x := Except.error.inj hread
        exact .inl ⟨x, rfl⟩
      | ok req =>
        rw [hrequest] at hread
        cases hread
    | ok p =>
      obtain ⟨req, conn⟩ := p
      rw [hresult] at hread
      unfold requestIn at hread
      cases hparsed : httparse (bs.take k) with
      | incomplete =>
        rw [hparsed] at hread
        cases hread
      | error msg =>
        rw [hparsed] at hread
        cases hread
      | complete len method path headers =>
        rw [hparsed] at hread
        obtain rfl : req = _ := Except.ok.inj hread
        refine .inr ⟨_, conn, len, method, path, headers, rfl, rfl, ?_⟩
        rw [← List.take_take, List.take_length]
        exact congrArg (fun n => (bs.drop k).take n) (collect_length headers)
  · intro hnone segs hcut
    refine ⟨readHttp11Request_late hcut (findHeaderEnd_eq_none_iff.2 hnone), readHttp11RequestHeld_snd httparse _, ?_⟩
    exact length_held (Nat.zero_le _)

/-- A request in one segment and in two; and a client that closes its side after `GET`. -/
theorem segments_alike_postHi :
    (readHttp11Request parseHead ⟨[postHi '2'], .eof⟩).map Prod.fst =
      (readHttp11Request parseHead ⟨[(postHi '2').take 30, (postHi '2').drop 30], .eof⟩).map Prod.fst ∧
    ∃ a, readHttp11Request parseHead ⟨[utf8Encode "GET".toList], .eof⟩ = .error (.err a) := by
  have hsmall : Allocatable parseHead (postHi '2') 38 := by
    intro len method path headers hparsed
    obtain ⟨-, -, -, rfl⟩ := Parsed.complete.inj (parseHead_postHi.1.symm.trans hparsed)
    decide
  have hone : Cut (postHi '2') [postHi '2'] := ⟨by simp, by decide⟩
  have htwo : Cut (postHi '2') [(postHi '2').take 30, (postHi '2').drop 30] := ⟨by simp, by decide⟩
  have hget : Cut (utf8Encode "GET".toList) [utf8Encode "GET".toList] := ⟨by simp, by decide⟩
  constructor
  · exact ((segments_alike parseHead (postHi '2')).1 38 (findHeaderEnd_eq_some_iff.1 findHeaderEnd_postHi.1) (by decide) hsmall _ _ hone htwo).1
  · exact ((segments_alike parseHead (utf8Encode "GET".toList)).2 (by decide) _ hget).1

end Alike

end ServiceProxy.ProxyHttp
