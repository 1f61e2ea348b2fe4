import ServiceProxy.Lib.Rfc9112Read

/-!
# Delimiting requests by `Content-Length`

A server that looks only for the end of the head and for the `Content-Length` line in it, and counts the bytes of the body.

* `delimit` — the length of the first complete request;
* `delimit_fields` — it finds the end of a message whose first `Content-Length` line is the length of its body;
* `delimit_take` — it finds nothing in a part of a message.
-/

namespace ServiceProxy.Lib.Rfc9112

def lengthOfLine (line : List UInt8) : Option ℕ :=
  (splitOnce 58 line).bind fun p => if valueIs contentLength p.1 then number? (trimBlank p.2) else none

/-- The length of the first request, when it is complete. -/
def delimit (bs : List UInt8) : Option ℕ :=
  (readLines (bs.length + 1) bs).bind fun p => (p.1.tail.findSome? lengthOfLine).bind fun n =>
    if n ≤ p.2.length then some (bs.length - p.2.length + n) else none

/-- The end of a message: a start line, lines with a length among them, and a body of that length. -/
theorem delimit_lines {start : List UInt8} {lines : List (List UInt8)} {body : List UInt8}
    (h : ∀ line ∈ start :: lines, line ≠ [] ∧ 10 ∉ line) (hlen : lines.findSome? lengthOfLine = some body.length) :
    delimit ((start :: lines).flatMap (· ++ crlf) ++ (crlf ++ body)) =
      some ((start :: lines).flatMap (· ++ crlf) ++ (crlf ++ body)).length := by
  unfold delimit
  rw [readLines_append h (length_lines_lt _ _)]
  simp only [Option.bind_some, List.tail_cons, hlen, Nat.le_refl, if_true, List.length_append, Option.some.injEq]
  omega

def fieldLine (p : List UInt8 × List UInt8) : List UInt8 := p.1 ++ 58 :: 32 :: p.2

theorem lengthOfLine_fieldLine {p : List UInt8 × List UInt8} (h : 58 ∉ p.1) :
    lengthOfLine (fieldLine p) = if valueIs contentLength p.1 then number? (trimBlank p.2) else none := by
  unfold lengthOfLine fieldLine
  rw [splitOnce_append h]
  rfl

/-- The name and the value keep to their line, and the name to itself. -/
structure OnLine (p : List UInt8 × List UInt8) : Prop where
  name : 10 ∉ p.1
  colon : 58 ∉ p.1
  value : 10 ∉ p.2

/-- **The end of a message**, whose first `Content-Length` line is the length of its body. -/
theorem delimit_fields {start body : List UInt8} {before after : List (List UInt8 × List UInt8)}
    {field : List UInt8 × List UInt8} (hne : start ≠ []) (hstart : 10 ∉ start)
    (h : ∀ p ∈ before ++ field :: after, OnLine p) (hother : ∀ p ∈ before, ¬ valueIs contentLength p.1)
    (hname : valueIs contentLength field.1) (hnumber : number? field.2 = some body.length) :
    delimit ((start :: (before ++ field :: after).map fieldLine).flatMap (· ++ crlf) ++ (crlf ++ body)) =
      some ((start :: (before ++ field :: after).map fieldLine).flatMap (· ++ crlf) ++ (crlf ++ body)).length := by
  refine delimit_lines ?_ ?_
  · intro line hline
    rcases List.mem_cons.1 hline with rfl | hline
    · exact ⟨hne, hstart⟩
    · obtain ⟨p, hp, rfl⟩ := List.mem_map.1 hline
      refine ⟨by simp [fieldLine], ?_⟩
      simp only [fieldLine, List.mem_append, List.mem_cons, not_or]
      exact ⟨(h p hp).name, by decide, by decide, (h p hp).value⟩
  · have hnone : (before.map fieldLine).findSome? lengthOfLine = none := by
      rw [List.findSome?_eq_none_iff]
      intro line hline
      obtain ⟨p, hp, rfl⟩ := List.mem_map.1 hline
      rw [lengthOfLine_fieldLine (h p (List.mem_append_left _ hp)).colon, if_neg (hother p hp)]
    have hsome : lengthOfLine (fieldLine field) = some body.length := by
      rw [lengthOfLine_fieldLine (h field (by simp)).colon, if_pos hname, trimBlank_of_number? hnumber, hnumber]
    rw [List.map_append, List.map_cons, List.findSome?_append, hnone, List.findSome?_cons, hsome]
    rfl

theorem delimit_more {bs : List UInt8} {k : ℕ} (h : delimit bs = some k) (more : List UInt8) :
    delimit (bs ++ more) = some k ∧ k ≤ bs.length := by
  simp only [delimit, Option.bind_eq_some_iff, Option.ite_none_right_eq_some, Option.some.injEq, Prod.exists] at h
  obtain ⟨lines, rest, hlines, n, hn, hle, rfl⟩ := h
  obtain ⟨hmore, hrest⟩ := readLines_more hlines (m := (bs ++ more).length + 1) (by simp) more
  refine ⟨?_, by omega⟩
  unfold delimit
  rw [hmore]
  simp only [Option.bind_some, hn, List.length_append]
  rw [if_pos (by omega), Option.some.injEq]
  omega

/-- **A part of a message is not complete.** -/
theorem delimit_take {msg : List UInt8} (h : delimit msg = some msg.length) {n k : ℕ}
    (hk : delimit (msg.take n) = some k) : msg.length ≤ n ∧ k = msg.length := by
  obtain ⟨hmore, hle⟩ := delimit_more hk (msg.drop n)
  rw [List.take_append_drop, h] at hmore
  obtain rfl := Option.some.inj hmore
  rw [List.length_take] at hle
  omega

end ServiceProxy.Lib.Rfc9112
