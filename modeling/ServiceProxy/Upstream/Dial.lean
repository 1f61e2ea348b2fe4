import ServiceProxy.Lib.ByteStream
import ServiceProxy.Lib.Text
import ServiceProxy.Lib.Utf8

/-!
# Requests and responses on the upstream connection (`upstream/dial.rs`)

* `writeRequest` — the bytes `write_request` sends;
* `readResponse` — `read_response` over any reader that has lines and exact reads: the code runs it on a `BufReader` over
  the connection (`bufReader`), proofs run it on the bytes in one piece (`plain`);
* `readResponse_sim` — it does the same on any two readers that do the same; with it, `readResponse_segments` (the
  segments do not matter) and `decode_more` (what follows a response does not matter).
-/

namespace ServiceProxy.Upstream

open ServiceProxy.Lib

/-! ## Data -/

/-- `HashMap<String, Vec<String>>`: the keys with their values, in the order in which the map enumerates them. -/
abbrev HeaderMap := List (List Char × List (List Char))

/-- `headers.entry(name).or_default().push(value)`. -/
def HeaderMap.push (name value : List Char) : HeaderMap → HeaderMap
  | [] => [(name, [value])]
  | (k, vs) :: m => if k = name then (k, vs ++ [value]) :: m else (k, vs) :: push name value m

def HeaderMap.pushAll (m : HeaderMap) (ps : List (List Char × List Char)) : HeaderMap :=
  ps.foldl (fun m p => m.push p.1 p.2) m

section HeaderMap

variable {m : HeaderMap} {k n v : List Char} {vs : List (List Char)} {ps : List (List Char × List Char)}

theorem HeaderMap.mem_push (h : (k, vs) ∈ HeaderMap.push n v m) :
    (k, vs) ∈ m ∨ k = n ∧ ∃ ws, (ws = [] ∨ (k, ws) ∈ m) ∧ vs = ws ++ [v] := by
  induction m with
  | nil =>
    obtain ⟨rfl, rfl⟩ : k = n ∧ vs = [v] := by simpa [HeaderMap.push] using h
    exact .inr ⟨rfl, [], .inl rfl, rfl⟩
  | cons p m ih =>
    obtain ⟨k', ws⟩ := p
    simp only [HeaderMap.push] at h
    split_ifs at h with hk
    · subst hk
      rcases List.mem_cons.1 h with h | h
      · obtain ⟨rfl, rfl⟩ := Prod.mk.inj h
        exact .inr ⟨rfl, ws, .inr (by simp), rfl⟩
      · exact .inl (List.mem_cons_of_mem _ h)
    · rcases List.mem_cons.1 h with h | h
      · exact .inl (by simp [h])
      · rcases ih h with h | ⟨rfl, us, hus, rfl⟩
        · exact .inl (List.mem_cons_of_mem _ h)
        · exact .inr ⟨rfl, us, hus.imp_right (List.mem_cons_of_mem _), rfl⟩

theorem HeaderMap.exists_push_self : ∃ ws, (n, ws ++ [v]) ∈ HeaderMap.push n v m := by
  induction m with
  | nil => exact ⟨[], by simp [HeaderMap.push]⟩
  | cons p m ih =>
    obtain ⟨k', ws⟩ := p
    simp only [HeaderMap.push]
    split_ifs with hk
    · exact ⟨ws, by simp [hk]⟩
    · obtain ⟨us, hus⟩ := ih
      exact ⟨us, List.mem_cons_of_mem _ hus⟩

theorem HeaderMap.exists_push_of_mem (h : (k, vs) ∈ m) : ∃ ws, (k, vs ++ ws) ∈ HeaderMap.push n v m := by
  induction m with
  | nil => cases h
  | cons p m ih =>
    obtain ⟨k', us⟩ := p
    simp only [HeaderMap.push]
    rcases List.mem_cons.1 h with h | h
    · obtain ⟨rfl, rfl⟩ := Prod.mk.inj h
      split_ifs
      · exact ⟨[v], by simp⟩
      · exact ⟨[], by simp⟩
    · split_ifs
      · exact ⟨[], by simp [h]⟩
      · obtain ⟨ws, hws⟩ := ih h
        exact ⟨ws, List.mem_cons_of_mem _ hws⟩

theorem HeaderMap.mem_pushAll (h : (k, vs) ∈ HeaderMap.pushAll [] ps) : vs ≠ [] ∧ ∀ v ∈ vs, (k, v) ∈ ps := by
  have key : ∀ (ps qs : List (List Char × List Char)) (m : HeaderMap),
      (∀ k vs, (k, vs) ∈ m → vs ≠ [] ∧ ∀ v ∈ vs, (k, v) ∈ qs) →
      ∀ k vs, (k, vs) ∈ m.pushAll ps → vs ≠ [] ∧ ∀ v ∈ vs, (k, v) ∈ qs ++ ps := by
    intro ps
    induction ps with
    | nil => simp [HeaderMap.pushAll]
    | cons p ps ih =>
      intro qs m hm k vs h
      have := ih (qs ++ [p]) (m.push p.1 p.2) ?_ k vs h
      · simpa using this
      · intro k vs h
        rcases HeaderMap.mem_push h with h | ⟨rfl, ws, hws, rfl⟩
        · obtain ⟨hne, hvs⟩ := hm k vs h
          exact ⟨hne, fun v hv => List.mem_append_left _ (hvs v hv)⟩
        · refine ⟨by simp, fun v hv => ?_⟩
          rcases List.mem_append.1 hv with hv | hv
          · rcases hws with rfl | hws
            · cases hv
            · exact List.mem_append_left _ ((hm _ _ hws).2 v hv)
          · obtain rfl : v = p.2 := by simpa using hv
            simp
  simpa using key ps [] [] (by simp) k vs h

theorem HeaderMap.exists_mem_pushAll (h : (k, v) ∈ ps) : ∃ vs, (k, vs) ∈ HeaderMap.pushAll m ps ∧ vs ≠ [] := by
  have keep : ∀ (ps : List (List Char × List Char)) (m : HeaderMap) (vs : List (List Char)), vs ≠ [] → (k, vs) ∈ m →
      ∃ ws, (k, ws) ∈ HeaderMap.pushAll m ps ∧ ws ≠ [] := by
    intro ps
    induction ps with
    | nil => exact fun m vs hne h => ⟨vs, h, hne⟩
    | cons p ps ih =>
      intro m vs hne h
      obtain ⟨ws, hws⟩ := HeaderMap.exists_push_of_mem (n := p.1) (v := p.2) h
      exact ih _ _ (by simp [hne]) hws
  induction ps generalizing m with
  | nil => cases h
  | cons p ps ih =>
    rcases List.mem_cons.1 h with rfl | h
    · obtain ⟨ws, hws⟩ := HeaderMap.exists_push_self (n := k) (v := v) (m := m)
      exact keep ps _ _ (by simp) hws
    · exact ih h

end HeaderMap

/-- `struct Request`. -/
structure Request where
  method : List Char
  path : List Char
  host : List Char
  headers : HeaderMap
  body : List UInt8
  deriving DecidableEq, Repr

/-- `struct Response`. -/
structure Response where
  statusCode : ℕ
  headers : HeaderMap
  body : List UInt8
  deriving DecidableEq, Repr

/-- `enum UpstreamError`. -/
inductive UpstreamError
  | dial (e : IoError)
  | io (e : IoError)
  | parse (msg : List Char)
  deriving DecidableEq, Repr

/-! ## Writing a request -/

def crlf : List Char := ['\r', '\n']

/-- `"{k}: {v}\r\n"`. -/
def headerLine (k v : List Char) : List Char := k ++ ": ".toList ++ v ++ crlf

/-- The keys that `write_request` does not copy. -/
def skipsInRequest (k : List Char) : Bool :=
  let lower := toAsciiLowercase k
  lower = "connection".toList ∨ lower = "content-length".toList ∨ lower = "host".toList

/-- The field lines `write_request` copies from the map. -/
def copiedLines (headers : HeaderMap) : List Char :=
  headers.flatMap fun (k, values) => if skipsInRequest k then [] else values.flatMap (headerLine k)

/-- Everything `write_request` sends before the body. -/
def requestHead (req : Request) : List Char :=
  req.method ++ [' '] ++ req.path ++ " HTTP/1.1\r\n".toList ++
    (if req.host.isEmpty then [] else headerLine "Host".toList req.host) ++
    copiedLines req.headers ++
    "Content-Length: ".toList ++ Nat.toDigits 10 req.body.length ++ "\r\nConnection: keep-alive\r\n\r\n".toList

/-- `write_request`. -/
def writeRequest (req : Request) : List UInt8 := utf8Encode (requestHead req) ++ req.body

/-! ## Reading a response -/

/-- A reader with `read_line` and `read_exact`. -/
structure Reader (σ : Type) where
  readLine : σ → Io (List Char × σ)
  readExact : ℕ → σ → Io (List UInt8 × σ)

/-- `read_line` checks that the bytes it read are a string. -/
def lineOf {σ : Type} (x : Io (List UInt8 × σ)) : Io (List Char × σ) := do
  let (bs, s) ← x
  match utf8Decode bs with
  | some line => .ok (line, s)
  | none => .error (.err .invalidData)

/-- `tokio::io::BufReader`, with its buffer of 8 KiB. -/
def bufReader : Reader (BufReader UInt8) where
  readLine r := lineOf (r.readUntil 8192 10)
  readExact n r := r.readExact 8192 n

variable {σ τ : Type}

def isCrOrLf (c : Char) : Bool := c = '\r' ∨ c = '\n'

/-- The header loop of `read_response`.  The first argument bounds the number of its turns. -/
def readHeaders (R : Reader σ) :
    ℕ → HeaderMap → Option ℕ → σ → Except (Halt UpstreamError) ((HeaderMap × Option ℕ) × σ)
  | 0, _, _, _ => .error .pending
  | turns + 1, headers, contentLength, s => do
    let (line, s) ← (R.readLine s).mapError (Halt.map .io)
    let line := trimEndMatches isCrOrLf line
    if line.isEmpty then
      .ok ((headers, contentLength), s)
    else
      match splitOnce ':' line with
      | none => .error (.err (.parse ("bad header: ".toList ++ line)))
      | some (name, value) =>
        let name := trim name
        let value := trim value
        let contentLength :=
          if eqIgnoreAsciiCase name "content-length".toList then parseUnsigned (2 ^ 64) value else contentLength
        readHeaders R turns (headers.push name value) contentLength s

/-- The status line of `read_response`: its status code. -/
def parseStatusLine (statusLine : List Char) : Except (Halt UpstreamError) ℕ :=
  if statusLine.isEmpty then
    .error (.err (.parse "empty status line".toList))
  else
    match splitWhitespace statusLine with
    | _ :: code :: _ =>
      match parseUnsigned (2 ^ 16) code with
      | some code => .ok code
      | none => .error (.err (.parse "bad status code".toList))
    | _ => .error (.err (.parse "missing status code".toList))

/-- The body of `read_response`.  `vec![0u8; n]` panics above `isize::MAX`. -/
def readBody (R : Reader σ) (contentLength : Option ℕ) (s : σ) : Except (Halt UpstreamError) (List UInt8 × σ) :=
  match contentLength with
  | some n => if n < 2 ^ 63 then (R.readExact n s).mapError (Halt.map .io) else .error .panic
  | none => .ok ([], s)

/-- `read_response` after the status line. -/
def readRest (R : Reader σ) (turns code : ℕ) (s : σ) : Except (Halt UpstreamError) (Response × σ) := do
  let ((headers, contentLength), s) ← readHeaders R turns [] none s
  let (body, s) ← readBody R contentLength s
  .ok ({ statusCode := code, headers, body }, s)

def readResponseWith (R : Reader σ) (turns : ℕ) (s : σ) : Except (Halt UpstreamError) (Response × σ) := do
  let (statusLine, s) ← (R.readLine s).mapError (Halt.map .io)
  let code ← parseStatusLine statusLine
  readRest R turns code s

/-- `read_response` on the connection: the response, and the reader that is thrown away after it. -/
def readResponse (conn : Stream UInt8) : Except (Halt UpstreamError) (Response × BufReader UInt8) :=
  readResponseWith bufReader (conn.flat.length + 1) (.new conn)

/-! ## The bytes in one piece -/

/-- The reader of the bytes in one piece, which end in `e`. -/
def plain (e : Ending) : Reader (List UInt8) where
  readLine bs := lineOf (Plain.readUntil 10 e bs)
  readExact n bs := Plain.readExact e n bs

/-- `read_response` on the bytes `bs`: the response and the bytes behind it. -/
def decode (e : Ending) (bs : List UInt8) : Except (Halt UpstreamError) (Response × List UInt8) :=
  readResponseWith (plain e) (bs.length + 1) bs

/-- The reader `R'` does what `R` does. -/
structure ReaderSim (L : Prop) (rel : σ → τ → Prop) (R : Reader σ) (R' : Reader τ) : Prop where
  line : ∀ s t, rel s t → Sim L rel (R.readLine s) (R'.readLine t)
  exact : ∀ n s t, rel s t → Sim L rel (R.readExact n s) (R'.readExact n t)

theorem lineOf_sim {L : Prop} {rel : σ → τ → Prop} {x : Io (List UInt8 × σ)} {y : Io (List UInt8 × τ)}
    (h : Sim L rel x y) : Sim L rel (lineOf x) (lineOf y) := by
  refine h.bind fun bs s t hst => ?_
  simp only
  cases utf8Decode bs with
  | some line => exact Sim.ok hst
  | none => exact Sim.error _

theorem bufReader_sim (T : Prop) (e : Ending) : ReaderSim False (Reads T e) bufReader (plain e) where
  line _ _ h := lineOf_sim (readUntil_sim (by decide) h)
  exact _ _ _ h := readExact_sim (by decide) h

theorem plain_more (e : Ending) (more : List UInt8) :
    ReaderSim True (fun s t => t = s ++ more) (plain .open) (plain e) where
  line := by
    rintro s _ rfl
    exact lineOf_sim (Plain.readUntil_more 10 e s more)
  exact := by
    rintro n s _ rfl
    exact Plain.readExact_more e n s more

section Sim

variable {L : Prop} {rel : σ → τ → Prop} {R : Reader σ} {R' : Reader τ} {turns turns' : ℕ} {s : σ} {t : τ}

theorem readHeaders_sim (hR : ReaderSim L rel R R') (hturns : turns = turns' ∨ L ∧ turns ≤ turns') (headers : HeaderMap)
    (contentLength : Option ℕ) (h : rel s t) :
    Sim L rel (readHeaders R turns headers contentLength s) (readHeaders R' turns' headers contentLength t) := by
  induction turns generalizing turns' headers contentLength s t with
  | zero =>
    obtain rfl | hL := hturns
    · exact Sim.error _
    · exact .inr ⟨hL.1, rfl⟩
  | succ turns ih =>
    obtain ⟨n, rfl⟩ : ∃ n, turns' = n + 1 := ⟨turns' - 1, by omega⟩
    rw [readHeaders, readHeaders]
    refine (hR.line s t h).mapError.bind fun line s t h => ?_
    simp only
    split_ifs
    · exact Sim.ok h
    · split
      · exact Sim.error _
      · exact ih (hturns.imp Nat.succ.inj fun hL => ⟨hL.1, Nat.le_of_succ_le_succ hL.2⟩) _ _ h

theorem readBody_sim (hR : ReaderSim L rel R R') (contentLength : Option ℕ) (h : rel s t) :
    Sim L rel (readBody R contentLength s) (readBody R' contentLength t) := by
  unfold readBody
  split
  · split_ifs
    · exact (hR.exact _ s t h).mapError
    · exact Sim.error _
  · exact Sim.ok h

/-- **Readers that do the same read the same response.** -/
theorem readResponse_sim (hR : ReaderSim L rel R R') (hturns : turns = turns' ∨ L ∧ turns ≤ turns') (h : rel s t) :
    Sim L rel (readResponseWith R turns s) (readResponseWith R' turns' t) := by
  refine (hR.line s t h).mapError.bind fun line s t h => ?_
  simp only
  cases parseStatusLine line with
  | error e => exact Sim.error e
  | ok code =>
    refine (readHeaders_sim hR hturns [] none h).bind fun p s t h => ?_
    exact (readBody_sim hR p.2 h).bind fun body s t h => Sim.ok h

end Sim

/-- **The segments do not matter.** -/
theorem readResponse_segments {T : Prop} {conn : Stream UInt8} (h : Reads T conn.ending (.new conn) conn.flat) :
    Sim False (Reads T conn.ending) (readResponse conn) (decode conn.ending conn.flat) :=
  readResponse_sim (bufReader_sim T conn.ending) (.inl rfl) h

section Segments

variable {conn : Stream UInt8} {resp : Response}

theorem decode_of_readResponse {r : BufReader UInt8} (hconn : ∀ seg ∈ conn.segs, seg ≠ [])
    (h : readResponse conn = .ok (resp, r)) :
    ∃ rest, decode conn.ending conn.flat = .ok (resp, rest) ∧ Reads False conn.ending r rest :=
  (readResponse_segments (reads_new hconn)).of_ok h

theorem readResponse_of_decode {rest : List UInt8} (hconn : ∀ seg ∈ conn.segs, seg ≠ [])
    (h : decode conn.ending conn.flat = .ok (resp, rest)) :
    ∃ r, readResponse conn = .ok (resp, r) ∧ Reads False conn.ending r rest :=
  (readResponse_segments (reads_new hconn)).exists_ok h

theorem readResponse_eq_error {a : Halt UpstreamError} (hconn : ∀ seg ∈ conn.segs, seg ≠ []) :
    readResponse conn = .error a ↔ decode conn.ending conn.flat = .error a :=
  (readResponse_segments (reads_new hconn)).eq_error_iff

end Segments

/-- **What follows a response does not matter.** -/
theorem decode_more (e : Ending) (bs more : List UInt8) :
    Sim True (fun s t => t = s ++ more) (decode .open bs) (decode e (bs ++ more)) :=
  readResponse_sim (plain_more e more) (.inr ⟨trivial, by simp⟩) rfl

end ServiceProxy.Upstream
