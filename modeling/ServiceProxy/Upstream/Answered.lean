import ServiceProxy.HandleConn
import ServiceProxy.Upstream.Forward

/-!
# Whose answer a call returns (`forward_pooled`)

The upstream reads a request and decides on an answer.  What it may answer to a message is a relation `L`, and `ServedBy L` says
that it keeps to it.

`forward_pooled_answered`: in every run, a call that gets a response gets an answer that `L` allows to its own request.
-/

namespace ServiceProxy.Upstream

open ServiceProxy.Lib
open ServiceProxy.Lib.Exchange (Net)

theorem SendableRequest.oneLine {req : Request} (h : SendableRequest req)
    (hvalues : ∀ k vs, (k, vs) ∈ req.headers → vs ≠ []) : OneLine req where
  method hmem := absurd (List.all_eq_true.1 h.method _ hmem) (by decide)
  path hmem := absurd (List.all_eq_true.1 h.path _ hmem) (by decide)
  host hmem := by
    have hbyte : 10 ∈ utf8Encode req.host := List.mem_flatMap.2 ⟨'\n', hmem, by decide⟩
    exact (Rfc9112.ne_of_isFieldByte (List.all_eq_true.1 h.host 10 hbyte)).2 rfl
  name := by
    intro k vs hmem
    obtain ⟨v, vs', rfl⟩ := List.exists_cons_of_ne_nil (hvalues k vs hmem)
    have htoken := List.all_eq_true.1 (h.headers k _ hmem v List.mem_cons_self).token
    exact ⟨fun hlf => absurd (htoken _ hlf) (by decide), fun hcolon => absurd (htoken _ hcolon) (by decide)⟩
  value := by
    intro k vs hmem v hv hlf
    have hbyte : 10 ∈ utf8Encode v := List.mem_flatMap.2 ⟨'\n', hlf, by decide⟩
    exact (Rfc9112.ne_of_isFieldByte (List.all_eq_true.1 (h.headers k vs hmem v hv).valid 10 hbyte)).2 rfl

/-! ## The upstream -/

section Server

variable (L : List UInt8 → EchoAnswer → Prop)

/-- The upstream gives answers that `L` allows, and they are short. -/
def ServedBy (s : Net Sys Conn UInt8 EchoAnswer Response) : Exchange.Ev Ev Conn EchoAnswer → Prop
  | .serve c a => Short a ∧ Exchange.AnswersNext protocol L (s.links c) a
  | _ => True

variable [∀ msg a, Decidable (L msg a)]

instance (s : Net Sys Conn UInt8 EchoAnswer Response) (e : Exchange.Ev Ev Conn EchoAnswer) : Decidable (ServedBy L s e) :=
  match e with
  | .serve _ _ => inferInstanceAs (Decidable (_ ∧ _))
  | .pool _ | .start _ | .call _ _ | .done _ | .close _ => isTrue trivial

end Server

/-! ## Runs -/

section Run

variable {L : List UInt8 → EchoAnswer → Prop} {addr : String} {maxSize : ℕ} {reqs : ℕ → Request}
  {es : List (Exchange.Ev Ev Conn EchoAnswer)} {t : Net Sys Conn UInt8 EchoAnswer Response}

/-- **A call returns what the upstream answers to its own request**, in any interleaving of any number of calls on one pool. -/
theorem forward_pooled_answered (hreqs : ∀ i, OneLine (reqs i))
    (h : Run (Exchange.step pooling protocol reqs) (ServedBy L) (Net.new (Sys.new addr maxSize)) es t) {i : ℕ}
    {call : Exchange.Call Conn UInt8 Response} {resp : Response} (hcall : t.calls i = some call)
    (hr : call.phase = .returned resp) : ∃ a, L (writeRequest (reqs i)) a ∧ Carries a resp := by
  have hdelimited : ∀ i, Exchange.Delimited protocol (reqs i) := fun i n k hk =>
    Rfc9112.delimit_take (delimit_writeRequest (hreqs i)) hk
  exact Exchange.run_answered discipline sound_short hdelimited (fun _ _ _ hserved => hserved) (placed_new addr maxSize)
    (fun i => rfl) h hcall hr

end Run

end ServiceProxy.Upstream
