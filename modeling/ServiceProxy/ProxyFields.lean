import Mathlib.Data.List.Dedup
import ServiceProxy.ProxyRoundTrip

/-!
# The fields that are passed on

`parse_request` sorts the fields of a client into a map from names to texts; `write_request` sends them map entry by map
entry.  Two things are lost on the way: bytes that are no UTF-8 are replaced, and fields whose names differ only in case are
other keys of the map, so that their order is that of the map.

* `perm_collect_iff` — what the enumerations of the map are: its names in some order, each with its values in the order
  received;
* `emitted_perm` — no field is lost and none is added;
* `valuesOf_emitted` — the values of a name, spelling by spelling.

`fields_unchanged_iff`: the fields pass through unchanged in every order of the map if and only if they are `Regular`.
-/

namespace ServiceProxy.Lib

/-! ## Values by their keys -/

def valuesAt {κ β : Type*} [DecidableEq κ] (k : κ) (ps : List (κ × β)) : List β :=
  (ps.filter fun p => p.1 = k).map Prod.snd

/-- Lists that commute can be joined in any order. -/
theorem flatMap_perm_of_commute {α β : Type*} {f : α → List β} {l l' : List α} (h : l.Perm l')
    (hcomm : ∀ a ∈ l, ∀ b ∈ l, f a ++ f b = f b ++ f a) : l.flatMap f = l'.flatMap f := by
  induction h with
  | nil => rfl
  | cons a h ih =>
    rw [List.flatMap_cons, List.flatMap_cons, ih]
    exact fun b hb c hc => hcomm b (List.mem_cons_of_mem _ hb) c (List.mem_cons_of_mem _ hc)
  | swap a b l =>
    have hab := hcomm b (by simp) a (by simp)
    simp only [List.flatMap_cons, ← List.append_assoc, hab]
  | trans h _ ih ih' =>
    rw [ih hcomm]
    exact ih' fun a ha b hb => hcomm a (h.mem_iff.2 ha) b (h.mem_iff.2 hb)

end ServiceProxy.Lib

namespace ServiceProxy.Upstream

open ServiceProxy.Lib

/-! ## The map -/

def HeaderMap.get (k : List Char) : HeaderMap → List (List Char)
  | [] => []
  | (k', vs) :: m => if k' = k then vs else HeaderMap.get k m

section Map

variable {m : HeaderMap} {k k' v : List Char} {vs : List (List Char)} {ps : List (List Char × List Char)}

theorem HeaderMap.get_push (m : HeaderMap) :
    HeaderMap.get k (HeaderMap.push k' v m) = HeaderMap.get k m ++ valuesAt k [(k', v)] := by
  induction m with
  | nil =>
    by_cases hk : k' = k
    · simp [HeaderMap.push, HeaderMap.get, valuesAt, hk]
    · simp [HeaderMap.push, HeaderMap.get, valuesAt, hk]
  | cons p m ih =>
    obtain ⟨j, ws⟩ := p
    simp only [HeaderMap.push]
    by_cases hj : j = k'
    · rw [if_pos hj]
      by_cases hk : k' = k
      · simp [HeaderMap.get, valuesAt, hj, hk]
      · simp [HeaderMap.get, valuesAt, hj, hk]
    · rw [if_neg hj]
      simp only [HeaderMap.get, ih]
      by_cases hjk : j = k
      · have hk : k' ≠ k := fun hk => hj (hjk.trans hk.symm)
        simp [valuesAt, hjk, hk]
      · rw [if_neg hjk, if_neg hjk]

/-- **A key has the values that were pushed for it, in order.** -/
theorem HeaderMap.get_pushAll (m : HeaderMap) :
    HeaderMap.get k (m.pushAll ps) = HeaderMap.get k m ++ valuesAt k ps := by
  induction ps generalizing m with
  | nil => simp [HeaderMap.pushAll, valuesAt]
  | cons p ps ih =>
    have hcons : valuesAt k (p :: ps) = valuesAt k [p] ++ valuesAt k ps := by
      simp only [valuesAt, List.filter_cons, List.filter_nil]
      split_ifs <;> rfl
    rw [hcons, ← List.append_assoc, ← HeaderMap.get_push]
    exact ih _

theorem HeaderMap.get_of_mem (hkeys : (m.map Prod.fst).Nodup) (h : (k, vs) ∈ m) : HeaderMap.get k m = vs := by
  induction m with
  | nil => cases h
  | cons p m ih =>
    obtain ⟨j, ws⟩ := p
    simp only [List.map_cons, List.nodup_cons] at hkeys
    rcases List.mem_cons.1 h with heq | h
    · obtain ⟨rfl, rfl⟩ := Prod.mk.inj heq
      exact if_pos rfl
    · have hj : j ≠ k := by
        rintro rfl
        exact hkeys.1 (List.mem_map.2 ⟨_, h, rfl⟩)
      rw [HeaderMap.get, if_neg hj]
      exact ih hkeys.2 h

theorem HeaderMap.mem_keys_pushAll :
    k ∈ (m.pushAll ps).map Prod.fst ↔ k ∈ m.map Prod.fst ∨ k ∈ ps.map Prod.fst := by
  induction ps generalizing m with
  | nil => simp [HeaderMap.pushAll]
  | cons p ps ih =>
    have hpush : m.pushAll (p :: ps) = (m.push p.1 p.2).pushAll ps := rfl
    rw [hpush, ih, HeaderMap.keys_push, List.map_cons, List.mem_cons]
    split_ifs with hp
    · constructor
      · exact Or.imp_right .inr
      · rintro (hk | rfl | hk)
        · exact .inl hk
        · exact .inl hp
        · exact .inr hk
    · rw [List.mem_append, List.mem_singleton, or_assoc]

theorem HeaderMap.get_of_notMem (hk : k ∉ m.map Prod.fst) : HeaderMap.get k m = [] := by
  induction m with
  | nil => rfl
  | cons p m ih =>
    obtain ⟨j, vs⟩ := p
    obtain ⟨hj, hm⟩ := List.ne_and_not_mem_of_not_mem_cons hk
    rw [HeaderMap.get, if_neg hj.symm]
    exact ih hm

theorem HeaderMap.valuesAt_fields (hkeys : (m.map Prod.fst).Nodup) : valuesAt k (HeaderMap.fields m) = HeaderMap.get k m := by
  induction m with
  | nil => rfl
  | cons p m ih =>
    obtain ⟨j, vs⟩ := p
    obtain ⟨hj, hkeys⟩ := List.nodup_cons.1 hkeys
    have hcons : valuesAt k (HeaderMap.fields ((j, vs) :: m)) =
        (if j = k then vs else []) ++ valuesAt k (HeaderMap.fields m) := by
      split_ifs with hjk <;> simp [HeaderMap.fields, valuesAt, List.filter_map, Function.comp_def, hjk]
    rw [hcons, ih hkeys, HeaderMap.get]
    split_ifs with hjk
    · rw [← hjk, HeaderMap.get_of_notMem hj, List.append_nil]
    · rfl

end Map

end ServiceProxy.Upstream

namespace ServiceProxy.ProxyHttp

open ServiceProxy.Lib ServiceProxy.Upstream
open ServiceProxy.Lib.Rfc9112 (valuesOf)

/-! ## What is received and what is sent -/

/-- The name is not one of those `write_request` leaves out. -/
def isPassed (k : List Char) : Bool := !skipsInRequest k

/-- The field lines of the client that are to be passed on. -/
def receivedLines (headers : List (List Char × List UInt8)) : List (List Char × List UInt8) :=
  headers.filter fun h => isPassed h.1

/-- The field lines that `write_request` emits for the map, apart from its own. -/
def emittedLines (m : HeaderMap) : List (List Char × List UInt8) := (copiedFields m).map fun p => (p.1, utf8Encode p.2)

def lineBytes (h : List Char × List UInt8) : List UInt8 :=
  utf8Encode (h.1 ++ ": ".toList) ++ h.2 ++ Rfc9112.crlf

/-- The lines of `write_request` before the fields: the request line, and `Host` if there is one. -/
def firstLines (req : Request) : List UInt8 :=
  utf8Encode (req.method ++ ' ' :: req.path ++ " HTTP/1.1\r\n".toList ++
    (if req.host.isEmpty then [] else headerLine "Host".toList req.host))

/-- The lines of `write_request` behind the fields, and the empty line. -/
def lastLines (req : Request) : List UInt8 :=
  utf8Encode ("Content-Length: ".toList ++ Nat.toDigits 10 req.body.length ++ "\r\nConnection: keep-alive\r\n\r\n".toList)

/-- **The emitted lines are all that is sent**, between the lines of `write_request` itself. -/
theorem writeRequest_eq_lines (req : Request) :
    writeRequest req =
      firstLines req ++ (emittedLines req.headers).flatMap lineBytes ++ lastLines req ++ req.body := by
  have hlines : utf8Encode (copiedLines req.headers) = (emittedLines req.headers).flatMap lineBytes := by
    rw [copiedLines_eq, emittedLines, List.flatMap_map]
    generalize copiedFields req.headers = ps
    induction ps with
    | nil => rfl
    | cons p ps ih =>
      have hcrlf : Rfc9112.crlf = utf8Encode crlf := by decide
      rw [List.flatMap_cons, List.flatMap_cons, utf8Encode_append, ih]
      simp only [headerLine, lineBytes, utf8Encode_append, hcrlf]
  unfold writeRequest requestHead firstLines lastLines
  rw [← hlines]
  simp only [utf8Encode_append, utf8Encode_cons, utf8Encode_nil, List.append_assoc, List.append_nil]

/-- The fields pass through unchanged: none is lost, none is added, and the values of a name, whatever its case, are in the
order received. -/
structure Unchanged (headers : List (List Char × List UInt8)) (m : HeaderMap) : Prop where
  lines : (emittedLines m).Perm (receivedLines headers)
  order : ∀ n, valuesOf n (emittedLines m) = valuesOf n (receivedLines headers)

def namesOf (headers : List (List Char × List UInt8)) : List (List Char) := (headers.map Prod.fst).dedup

/-- The spellings of the name `n` among the fields that are passed on. -/
def spellings (n : List Char) (headers : List (List Char × List UInt8)) : List (List Char) :=
  (namesOf headers).filter fun k => isPassed k && eqIgnoreAsciiCase k n

/-- The values that are passed on are UTF-8; the values of two spellings of one name commute; and the values of a name are
received spelling by spelling. -/
structure Regular (headers : List (List Char × List UInt8)) : Prop where
  utf8 : ∀ h ∈ receivedLines headers, (utf8Decode h.2).isSome
  commute : ∀ n, ∀ k ∈ spellings n headers, ∀ k' ∈ spellings n headers,
    valuesAt k headers ++ valuesAt k' headers = valuesAt k' headers ++ valuesAt k headers
  grouped : ∀ n, valuesOf n (receivedLines headers) = (spellings n headers).flatMap fun k => valuesAt k headers

section Fields

variable {headers : List (List Char × List UInt8)} {m : HeaderMap} {n : List Char} {ks : List (List Char)}

/-- The entry of a name in the map. -/
def entryOf (headers : List (List Char × List UInt8)) (k : List Char) : List Char × List (List Char) :=
  (k, (valuesAt k headers).map fromUtf8Lossy)

theorem valuesAt_texts (k : List Char) (headers : List (List Char × List UInt8)) :
    valuesAt k (texts headers) = (valuesAt k headers).map fromUtf8Lossy := by
  simp only [valuesAt, texts, List.filter_map, List.map_map]
  rfl

/-- **The enumerations of the map**: its names in some order, each with its values in the order received. -/
theorem perm_collect_iff : m.Perm (collect headers).headers ↔
    ∃ ks : List (List Char), ks.Perm (namesOf headers) ∧ m = ks.map (entryOf headers) := by
  have hmap : (collect headers).headers = HeaderMap.pushAll [] (texts headers) := foldl_add_headers headers _
  have hnodup : ((HeaderMap.pushAll [] (texts headers)).map Prod.fst).Nodup :=
    HeaderMap.nodup_pushAll (m := []) List.nodup_nil
  have hkeys : ((collect headers).headers.map Prod.fst).Perm (namesOf headers) := by
    rw [hmap, namesOf, List.perm_ext_iff_of_nodup hnodup (List.nodup_dedup _)]
    intro k
    rw [HeaderMap.mem_keys_pushAll, List.mem_dedup]
    simp [texts]
  have hentries : ∀ p ∈ (collect headers).headers, entryOf headers p.1 = p := by
    intro p hp
    obtain ⟨k, vs⟩ := p
    rw [hmap] at hp
    have hget := HeaderMap.get_of_mem hnodup hp
    rw [HeaderMap.get_pushAll] at hget
    rw [entryOf, ← valuesAt_texts, ← hget]
    rfl
  have hself : ∀ m : HeaderMap, (∀ p ∈ m, entryOf headers p.1 = p) → m = (m.map Prod.fst).map (entryOf headers) := by
    intro m hm
    rw [List.map_map]
    exact ((List.map_congr_left hm).trans (List.map_id m)).symm
  constructor
  · intro h
    exact ⟨m.map Prod.fst, (h.map Prod.fst).trans hkeys, hself m fun p hp => hentries p (h.mem_iff.1 hp)⟩
  · rintro ⟨ks, hks, rfl⟩
    rw [hself _ hentries]
    exact (hks.trans hkeys.symm).map _

/-- **No field is lost and none is added**, up to the replaced bytes. -/
theorem emitted_perm (h : m.Perm (collect headers).headers) :
    (emittedLines m).Perm ((receivedLines headers).map fun h => (h.1, utf8Encode (fromUtf8Lossy h.2))) := by
  have hfields : (HeaderMap.fields m).Perm (texts headers) := by
    refine (h.flatMap_right _).trans ?_
    have hmap : (collect headers).headers = HeaderMap.pushAll [] (texts headers) := foldl_add_headers headers _
    rw [hmap]
    exact HeaderMap.fields_pushAll
  have hcopied : copiedFields m = (HeaderMap.fields m).filter fun p => isPassed p.1 := by
    rw [copiedFields_eq]
    clear h hfields
    induction m with
    | nil => rfl
    | cons p m ih =>
      have hcons : ∀ m' : HeaderMap, HeaderMap.fields (p :: m') = p.2.map (fun v => (p.1, v)) ++ m'.fields := fun _ => rfl
      rw [hcons, List.filter_append, ← ih, List.filter_map, List.filter_cons]
      cases hp : skipsInRequest p.1 with
      | true => simp [isPassed, Function.comp_def, hp]
      | false => simp [isPassed, Function.comp_def, hp, hcons]
  have hreceived : (receivedLines headers).map (fun h => (h.1, utf8Encode (fromUtf8Lossy h.2))) =
      ((texts headers).filter fun p => isPassed p.1).map fun p => (p.1, utf8Encode p.2) := by
    simp only [receivedLines, texts, List.filter_map, List.map_map]
    rfl
  rw [hreceived, emittedLines, hcopied]
  exact (hfields.filter _).map _

theorem emitted_perm_iff (h : m.Perm (collect headers).headers) :
    (emittedLines m).Perm (receivedLines headers) ↔ ∀ h ∈ receivedLines headers, (utf8Decode h.2).isSome := by
  have hperm := emitted_perm h
  constructor
  · intro hsame h hh
    obtain ⟨h', -, rfl⟩ := List.mem_map.1 ((hsame.symm.trans hperm).mem_iff.1 hh)
    simp
  · intro hutf8
    have hid : (receivedLines headers).map (fun h => (h.1, utf8Encode (fromUtf8Lossy h.2))) = receivedLines headers := by
      refine (List.map_congr_left fun h hh => ?_).trans (List.map_id _)
      obtain ⟨cs, hcs⟩ := Option.isSome_iff_exists.1 (hutf8 h hh)
      rw [← utf8Decode_eq_some.1 hcs, fromUtf8Lossy_utf8Encode, utf8Decode_eq_some.1 hcs]
      rfl
    rwa [hid] at hperm

theorem valuesOf_entry (n k : List Char) (vs : List (List UInt8)) :
    valuesOf n (vs.map fun v => (k, v)) = if eqIgnoreAsciiCase k n then vs else [] := by
  induction vs with
  | nil => simp [valuesOf]
  | cons v vs ih =>
    rw [List.map_cons]
    split_ifs with hk
    · rw [Rfc9112.valuesOf_cons_of_pos (by exact hk), ih, if_pos hk]
    · rw [Rfc9112.valuesOf_cons_of_neg (by exact hk), ih, if_neg hk]

/-- **The values of a name are sent spelling by spelling**, in the order of the map. -/
theorem valuesOf_emitted (hutf8 : ∀ h ∈ receivedLines headers, (utf8Decode h.2).isSome) (ks : List (List Char)) :
    valuesOf n (emittedLines (ks.map (entryOf headers))) =
      (ks.filter fun k => isPassed k && eqIgnoreAsciiCase k n).flatMap fun k => valuesAt k headers := by
  have hvalues : ∀ k, isPassed k → ((valuesAt k headers).map fromUtf8Lossy).map utf8Encode = valuesAt k headers := by
    intro k hk
    rw [List.map_map]
    refine (List.map_congr_left fun v hv => ?_).trans (List.map_id _)
    obtain ⟨h, hh, rfl⟩ := List.mem_map.1 hv
    obtain ⟨hh, hname⟩ := List.mem_filter.1 hh
    have hmem : h ∈ receivedLines headers := List.mem_filter.2 ⟨hh, by rw [of_decide_eq_true hname]; exact hk⟩
    obtain ⟨cs, hcs⟩ := Option.isSome_iff_exists.1 (hutf8 h hmem)
    rw [← utf8Decode_eq_some.1 hcs, Function.comp, fromUtf8Lossy_utf8Encode]
    rfl
  induction ks with
  | nil => rfl
  | cons k ks ih =>
    have hcons : emittedLines ((k :: ks).map (entryOf headers)) =
        (if skipsInRequest k then []
          else (((valuesAt k headers).map fromUtf8Lossy).map utf8Encode).map fun v => (k, v)) ++
        emittedLines (ks.map (entryOf headers)) := by
      have hcopied : copiedFields ((k :: ks).map (entryOf headers)) =
          (if skipsInRequest k then [] else ((valuesAt k headers).map fromUtf8Lossy).map fun v => (k, v)) ++
            copiedFields (ks.map (entryOf headers)) := rfl
      rw [emittedLines, hcopied, List.map_append]
      split_ifs
      · rfl
      · rw [List.map_map, List.map_map (f := utf8Encode)]
        rfl
    have happend : ∀ l l', valuesOf n (l ++ l') = valuesOf n l ++ valuesOf n l' := by
      intro l l'
      simp [valuesOf]
    rw [hcons, happend, ih, List.filter_cons]
    cases hk : skipsInRequest k with
    | true => simp [isPassed, hk, valuesOf]
    | false =>
      rw [hvalues k (by simp [isPassed, hk])]
      cases hn : eqIgnoreAsciiCase k n with
      | true => simp [isPassed, hk, hn, valuesOf_entry]
      | false => simp [isPassed, hk, hn, valuesOf_entry]

/-- What is regular passes through unchanged, in every order of the map. -/
theorem unchanged_of_regular (h : Regular headers) (hm : m.Perm (collect headers).headers) : Unchanged headers m := by
  refine ⟨(emitted_perm_iff hm).2 h.utf8, fun n => ?_⟩
  obtain ⟨ks, hks, rfl⟩ := perm_collect_iff.1 hm
  have hspellings : (ks.filter fun k => isPassed k && eqIgnoreAsciiCase k n).Perm (spellings n headers) := hks.filter _
  rw [valuesOf_emitted h.utf8, h.grouped n]
  refine flatMap_perm_of_commute hspellings fun k hk k' hk' => ?_
  exact h.commute n k (hspellings.mem_iff.1 hk) k' (hspellings.mem_iff.1 hk')

/-- What passes through unchanged in every order of the map is regular: two orders that differ in two spellings of a name
give its values in two orders. -/
theorem regular_of_unchanged (h : ∀ m : HeaderMap, m.Perm (collect headers).headers → Unchanged headers m) :
    Regular headers := by
  have hself := h _ (.refl _)
  have hutf8 := (emitted_perm_iff (.refl _)).1 hself.lines
  have horder : ∀ (ks : List (List Char)) (n : List Char), ks.Perm (namesOf headers) →
      (ks.filter fun k => isPassed k && eqIgnoreAsciiCase k n).flatMap (fun k => valuesAt k headers) =
        valuesOf n (receivedLines headers) := by
    intro ks n hks
    rw [← valuesOf_emitted hutf8]
    exact (h _ (perm_collect_iff.2 ⟨ks, hks, rfl⟩)).order n
  refine ⟨hutf8, fun n k hk k' hk' => ?_, fun n => (horder _ n (.refl _)).symm⟩
  by_cases hne : k = k'
  · rw [hne]
  · obtain ⟨hmem, hpass⟩ := List.mem_filter.1 hk
    obtain ⟨hmem', hpass'⟩ := List.mem_filter.1 hk'
    -- the two names first, in both orders
    have hperm : (k :: k' :: ((namesOf headers).erase k).erase k').Perm (namesOf headers) := by
      have hin : k' ∈ (namesOf headers).erase k := (List.mem_erase_of_ne (Ne.symm hne)).2 hmem'
      exact (((List.perm_cons_erase hin).symm).cons k).trans (List.perm_cons_erase hmem).symm
    have hone := horder _ n hperm
    have htwo := horder _ n ((List.Perm.swap k k' _).trans hperm)
    rw [List.filter_cons_of_pos (by exact hpass), List.filter_cons_of_pos (by exact hpass'), List.flatMap_cons,
      List.flatMap_cons] at hone
    rw [List.filter_cons_of_pos (by exact hpass'), List.filter_cons_of_pos (by exact hpass), List.flatMap_cons,
      List.flatMap_cons] at htwo
    rw [← htwo, ← List.append_assoc, ← List.append_assoc] at hone
    exact List.append_cancel_right hone

/-- **When the fields of a client pass through unchanged.**  Whatever header block `parse_request` accepts: in every order of
its map, `write_request` emits exactly the client's fields, byte for byte and with the values of every name in the order
received, if and only if these fields are `Regular`.  What it emits are the lines it sends between its own. -/
theorem fields_unchanged_iff {httparse : List UInt8 → Parsed} {buf : List UInt8} {k len : ℕ}
    {method path : Option (List Char)} (hparsed : httparse (buf.take k) = .complete len method path headers)
    {conn conn' : Stream UInt8} {req : Request} (hok : parseRequest httparse buf k conn = .ok (req, conn')) :
    ((∀ m : HeaderMap, m.Perm req.headers → Unchanged headers m) ↔ Regular headers) ∧
    ∀ m : HeaderMap, writeRequest { req with headers := m } =
      firstLines req ++ (emittedLines m).flatMap lineBytes ++ lastLines req ++ req.body := by
  rw [parseRequest_complete hparsed] at hok
  obtain ⟨⟨body, conn''⟩, -, heq⟩ := bind_eq_ok.1 hok
  obtain ⟨rfl, -⟩ := Prod.mk.inj (Except.ok.inj heq)
  refine ⟨⟨regular_of_unchanged, fun h m hm => unchanged_of_regular h hm⟩, fun m => ?_⟩
  exact writeRequest_eq_lines _

end Fields

/-! ## Fields that change -/

/-- A request with two fields of one name. -/
def getTwice (first second : List UInt8) : List UInt8 :=
  utf8Encode "GET / HTTP/1.1\r\n".toList ++ first ++ Rfc9112.crlf ++ second ++ Rfc9112.crlf ++ Rfc9112.crlf

theorem regular_twice : Regular [(['X'], [97]), (['X'], [98])] where
  utf8 := by decide
  commute := by
    have hsame : ∀ n, ∀ k ∈ spellings n [(['X'], [97]), (['X'], [98])], k = ['X'] := by
      intro n k hk
      simpa [namesOf] using (List.mem_filter.1 hk).1
    intro n k hk k' hk'
    rw [hsame n k hk, hsame n k' hk']
  grouped := by
    intro n
    have hpass : isPassed ['X'] = true := by decide
    have hnames : namesOf [(['X'], ([97] : List UInt8)), (['X'], [98])] = [['X']] := by decide
    cases hn : eqIgnoreAsciiCase ['X'] n with
    | true => simp [valuesOf, receivedLines, spellings, hnames, hpass, hn, valuesAt]
    | false => simp [valuesOf, receivedLines, spellings, hnames, hpass, hn]

/-- Two values of one spelling. -/
theorem fields_unchanged_twice : ∃ req conn',
    parseRequest parseBlock (getTwice (utf8Encode "X: a".toList) (utf8Encode "X: b".toList)) 30 ⟨[], .eof⟩ =
      .ok (req, conn') ∧ ∀ m : HeaderMap, m.Perm req.headers → Unchanged [(['X'], [97]), (['X'], [98])] m := by
  have hparsed : parseBlock ((getTwice (utf8Encode "X: a".toList) (utf8Encode "X: b".toList)).take 30) =
      .complete 30 (some "GET".toList) (some "/".toList) [(['X'], [97]), (['X'], [98])] := by decide
  have hok : parseRequest parseBlock (getTwice (utf8Encode "X: a".toList) (utf8Encode "X: b".toList)) 30 ⟨[], .eof⟩ =
      .ok (⟨"GET".toList, "/".toList, [], [(['X'], [['a'], ['b']])], []⟩, ⟨[], .eof⟩) := by
    rw [parseRequest_complete hparsed]
    rfl
  exact ⟨_, _, hok, (fields_unchanged_iff hparsed hok).1.2 regular_twice⟩

/-- **The counter-example.**  The value `0xFF` is no UTF-8: it is sent as the three bytes of `U+FFFD`. -/
theorem invalid_value_replaced :
    ¬ ∀ (httparse : List UInt8 → Parsed), Httparse httparse → ∀ (buf : List UInt8) (k len : ℕ)
      (method path : Option (List Char)) (headers : List (List Char × List UInt8)) (conn conn' : Stream UInt8)
      (req : Request), findHeaderEnd buf = some k → httparse (buf.take k) = .complete len method path headers →
      parseRequest httparse buf k conn = .ok (req, conn') →
      ∀ m : HeaderMap, m.Perm req.headers → Unchanged headers m := by
  intro hall
  have hends : findHeaderEnd (getTwice (utf8Encode "X: ".toList ++ [0xFF]) (utf8Encode "X: b".toList)) = some 30 := by
    decide
  have hparsed : parseBlock ((getTwice (utf8Encode "X: ".toList ++ [0xFF]) (utf8Encode "X: b".toList)).take 30) =
      .complete 30 (some "GET".toList) (some "/".toList) [(['X'], [0xFF]), (['X'], [98])] := by decide
  have hsame := hall parseBlock parseBlock_spec _ 30 30 _ _ _ ⟨[], .eof⟩ _ _ hends hparsed
    (parseRequest_complete hparsed _) _ (.refl _)
  exact absurd (hsame.lines.mem_iff (a := (['X'], [0xFF]))) (by decide)

end ServiceProxy.ProxyHttp
