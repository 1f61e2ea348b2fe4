import ServiceProxy.Bench.Scheduler

/-!
# The scheduler loses and invents no sample

* `Inv` — the invariant of a run: what the channels and the wait group hold is what the goroutines have put there;
* `inv_step` — every operation keeps it, and none panics;
* `alive` — while `run` has not returned, some goroutine can proceed, or the ticker delivers a tick;
* `potential_step` — every operation leaves less to do, so that no run goes on for ever.
-/

namespace ServiceProxy.Bench

open ServiceProxy.Lib

/-! ## The invariant -/

def Dispatch.inflight (d : Dispatch) : ℕ :=
  match d.pc with
  | .acquire | .finish | .ended => 0
  | _ => 1

def Dispatch.live (d : Dispatch) : ℕ :=
  match d.pc with
  | .ended => 0
  | _ => 1

def Dispatch.sent (d : Dispatch) : ℕ :=
  match d.pc with
  | .release | .finish | .ended => 1
  | _ => 0

def Dispatch.sentAs (k : Int64) (d : Dispatch) : ℕ := if d.seq = k then d.sent else 0

/-- The loop of `run` is over, and every dispatch has called `wg.Done()`. -/
def Main.pastWait : Main → Prop
  | .ticks | .wait => False
  | _ => True

/-- `results` has been closed. -/
def Main.hasClosed : Main → Bool
  | .done | .returned => true
  | _ => false

theorem Main.pastWait_of_hasClosed {m : Main} (h : m.hasClosed = true) : m.pastWait := by
  cases m with
  | done | returned => trivial
  | ticks | wait | close => cases h

def Shared.sent (γ : Shared) : List Sample := γ.collected ++ γ.results.buf

/-- **The invariant.** -/
structure Inv (s : Sys) : Prop where
  panic : s.shared.panic = none
  caps : 0 < s.shared.sem.cap ∧ 0 < s.shared.results.cap
  semOpen : s.shared.sem.closed = false
  places : s.shared.sem.buf.length = tally Dispatch.inflight s.tasks
  wg : s.shared.wg = tally Dispatch.live s.tasks
  numbers : s.tasks.map (fun d => d.seq.toInt) = (List.range s.tasks.length).map fun n : ℕ => (n : ℤ) + 1
  seq : s.shared.seq.toInt = s.tasks.length
  paced : s.tasks.length ≤ s.shared.last
  allEnded : s.shared.main.pastWait → tally Dispatch.live s.tasks = 0
  closed : s.shared.results.closed = s.shared.main.hasClosed
  drained : s.shared.collector ≠ .ranging → s.shared.main.hasClosed ∧ s.shared.results.buf = []
  returned : s.shared.main = .returned → s.shared.collector = .ended
  samples : ∀ k, (s.shared.sent.map Sample.seq).count k = tally (Dispatch.sentAs k) s.tasks
  carried : ∀ d ∈ s.tasks, ∀ x, d.pc = .send x → x.seq = d.seq

section Dispatching

variable {γ γ' : Shared} {ts : List Dispatch} {d d' : Dispatch} {a : Act} {i : ℕ}

theorem Acted.const (ha : Acted γ d a γ' d') :
    d'.seq = d.seq ∧ d'.tick = d.tick ∧ d'.intended = d.intended ∧ γ'.main = γ.main ∧ γ'.seq = γ.seq ∧ γ'.last = γ.last ∧
      γ'.collector = γ.collector ∧ γ'.collected = γ.collected := by
  cases ha <;> exact ⟨rfl, rfl, rfl, rfl, rfl, rfl, rfl, rfl⟩

theorem Inv.dispatch (h : Inv ⟨γ, ts⟩) (hi : ts[i]? = some d) (ha : Acted γ d a γ' d') (hpanic : γ'.panic = none)
    (hsem : γ'.sem.cap = γ.sem.cap ∧ γ'.sem.closed = γ.sem.closed)
    (hresults : γ'.results.cap = γ.results.cap ∧ γ'.results.closed = γ.results.closed)
    (hplaces : γ'.sem.buf.length + d.inflight = γ.sem.buf.length + d'.inflight)
    (hwg : γ'.wg + d.live = γ.wg + d'.live) (hlive : d'.live ≤ d.live)
    (hdrained : γ.main.hasClosed → γ'.results.buf = γ.results.buf)
    (hsamples : ∀ k, (γ'.sent.map Sample.seq).count k + d.sentAs k = (γ.sent.map Sample.seq).count k + d'.sentAs k)
    (hcarried : ∀ x, d'.pc = .send x → x.seq = d'.seq) : Inv ⟨γ', ts.set i d'⟩ := by
  obtain ⟨hseq, -, -, hmain, hcount, hlast, hcollector, -⟩ := ha.const
  have hsame : (ts.set i d').map (fun d => d.seq.toInt) = ts.map fun d => d.seq.toInt :=
    map_set_of_eq hi _ (by rw [hseq])
  have hplaces' := tally_set Dispatch.inflight hi d'
  have hlive' := tally_set Dispatch.live hi d'
  have hnumbers := h.numbers
  have holdPlaces := h.places
  have holdWg := h.wg
  simp only at hnumbers holdPlaces holdWg
  constructor
  case panic => exact hpanic
  case caps => simpa only [hsem, hresults] using h.caps
  case semOpen => simpa only [hsem] using h.semOpen
  case places => simp only; omega
  case wg => simp only; omega
  case numbers => simp only [hsame, hnumbers, List.length_set]
  case seq => simpa only [hcount, List.length_set] using h.seq
  case paced => simpa only [hlast, List.length_set] using h.paced
  case allEnded =>
    intro hpast
    have := h.allEnded (by simpa only [hmain] using hpast)
    simp only at this ⊢
    omega
  case closed => simpa only [hresults, hmain] using h.closed
  case drained =>
    intro hranging
    obtain ⟨hclosed, hbuf⟩ := h.drained (by simpa only [hcollector] using hranging)
    simp only [hmain]
    exact ⟨hclosed, by rw [hdrained hclosed]; exact hbuf⟩
  case returned =>
    intro hreturned
    simp only [hcollector]
    exact h.returned (by simpa only [hmain] using hreturned)
  case samples =>
    intro k
    have hsent := tally_set (Dispatch.sentAs k) hi d'
    have hold := h.samples k
    have hnew := hsamples k
    simp only at hold ⊢
    omega
  case carried => exact forall_mem_set h.carried hcarried i

theorem Inv.not_closed (h : Inv ⟨γ, ts⟩) (hi : ts[i]? = some d) (hlive : d.live = 1) : γ.results.closed = false := by
  have hle := le_tally Dispatch.live hi
  have hclosed := h.closed
  have hpast := h.allEnded
  simp only at hclosed hpast
  rw [hclosed]
  cases hmain : γ.main with
  | done | returned =>
    rw [hmain] at hpast
    have := hpast trivial
    omega
  | _ => rfl

theorem Inv.quiet (h : Inv ⟨γ, ts⟩) (hi : ts[i]? = some d) (ha : Acted γ d a γ d') (hinflight : d'.inflight = d.inflight)
    (hlive : d'.live = d.live) (hsent : d'.sent = d.sent) (hcarried : ∀ x, d'.pc = .send x → x.seq = d'.seq) :
    Inv ⟨γ, ts.set i d'⟩ := by
  have hsentAs : ∀ k, d'.sentAs k = d.sentAs k := fun k => by rw [Dispatch.sentAs, ha.const.1, hsent, Dispatch.sentAs]
  exact h.dispatch hi ha h.panic ⟨rfl, rfl⟩ ⟨rfl, rfl⟩ (by rw [hinflight]) (by rw [hlive]) hlive.le (fun _ => rfl)
    (fun k => by rw [hsentAs]) hcarried

/-- **Every operation of a dispatch keeps the invariant.** -/
theorem inv_act (h : Inv ⟨γ, ts⟩) (hi : ts[i]? = some d) (ha : Acted γ d a γ' d') : Inv ⟨γ', ts.set i d'⟩ := by
  have hpanic : γ.panic = none := h.panic
  have hact := ha
  cases ha with
  | @acquire sem hpc hsend =>
    obtain ⟨hopen, -, hcap, hbuf, hopen'⟩ := send_eq_ok.1 hsend
    refine h.dispatch hi hact hpanic ⟨hcap, by rw [hopen', hopen]⟩ ⟨rfl, rfl⟩ ?_ ?_ ?_ (fun _ => rfl) (fun k => ?_) nofun
    · simp [Dispatch.inflight, hpc, hbuf]
    · simp [Dispatch.live, hpc]
    · simp [Dispatch.live, hpc]
    · simp [Dispatch.sentAs, Dispatch.sent, Shared.sent, hpc]
  | acquirePanics hsend =>
    obtain ⟨hclosed, -⟩ := send_eq_error.1 hsend
    have hopen : γ.sem.closed = false := h.semOpen
    rw [hopen] at hclosed
    cases hclosed
  | start hpc | opened hpc | written hpc =>
    refine h.quiet hi hact ?_ ?_ ?_ nofun
    · simp [Dispatch.inflight, hpc]
    · simp [Dispatch.live, hpc]
    · simp [Dispatch.sent, hpc]
  | @sampled b t err hpc =>
    refine h.quiet hi hact ?_ ?_ ?_ fun x hx => ?_
    · rcases hpc with hpc | hpc | hpc <;> simp [Dispatch.inflight, hpc]
    · rcases hpc with hpc | hpc | hpc <;> simp [Dispatch.live, hpc]
    · rcases hpc with hpc | hpc | hpc <;> simp [Dispatch.sent, hpc]
    · obtain rfl := Pc.send.inj hx
      rfl
  | @send x results hpc hsend =>
    obtain ⟨hopen, -, hcap, hbuf, hopen'⟩ := send_eq_ok.1 hsend
    have hseq : x.seq = d.seq := h.carried d (List.mem_of_getElem? hi) x hpc
    refine h.dispatch hi hact hpanic ⟨rfl, rfl⟩ ⟨hcap, by rw [hopen', hopen]⟩ ?_ ?_ ?_ (fun hclosed => ?_) (fun k => ?_)
      nofun
    · simp [Dispatch.inflight, hpc]
    · simp [Dispatch.live, hpc]
    · simp [Dispatch.live, hpc]
    · have hresults : γ.results.closed = γ.main.hasClosed := h.closed
      rw [hopen, hclosed] at hresults
      cases hresults
    · -- the sample is on its way, and the dispatch has sent it
      simp only [Dispatch.sentAs, Dispatch.sent, Shared.sent, hpc, hbuf, ← hseq, ← List.append_assoc, List.map_append,
        List.count_append, List.map_cons, List.map_nil, List.count_singleton, beq_iff_eq]
      split_ifs <;> rfl
  | @sendPanics x p hpc hsend =>
    obtain ⟨hclosed, -⟩ := send_eq_error.1 hsend
    rw [h.not_closed hi (by simp [Dispatch.live, hpc])] at hclosed
    cases hclosed
  | @release x sem hpc hrecv =>
    have hopen : γ.sem.closed = false := h.semOpen
    obtain ⟨u, rfl⟩ : ∃ u, x = some u := by
      cases x with
      | some u => exact ⟨u, rfl⟩
      | none =>
        obtain ⟨hclosed, -⟩ := recv_eq_end.1 hrecv
        rw [hopen] at hclosed
        cases hclosed
    obtain ⟨hbuf, hcap, hclosed⟩ := recv_eq_some.1 hrecv
    refine h.dispatch hi hact hpanic ⟨hcap, hclosed⟩ ⟨rfl, rfl⟩ ?_ ?_ ?_ (fun _ => rfl) (fun k => ?_) nofun
    · simp [Dispatch.inflight, hpc, hbuf]
    · simp [Dispatch.live, hpc]
    · simp [Dispatch.live, hpc]
    · simp [Dispatch.sentAs, Dispatch.sent, Shared.sent, hpc]
  | finish hpc hwg =>
    refine h.dispatch hi hact hpanic ⟨rfl, rfl⟩ ⟨rfl, rfl⟩ ?_ ?_ ?_ (fun _ => rfl) (fun k => ?_) nofun
    · simp [Dispatch.inflight, hpc]
    · simp [Dispatch.live, hpc]
    · simp [Dispatch.live, hpc]
    · simp [Dispatch.sentAs, Dispatch.sent, Shared.sent, hpc]
  | finishPanics hpc hwg =>
    have hle := le_tally Dispatch.live hi
    have hlive : d.live = 1 := by simp [Dispatch.live, hpc]
    have hcount : γ.wg = tally Dispatch.live ts := h.wg
    omega

end Dispatching

/-! ## The run -/

section Run

variable {limit conns : ℕ} {cfg : RunConfig} {start : Time} {s t : Sys} {e : Ev} {j : ℕ}

/-- **When `run` gets to its loop.** -/
theorem launch_eq_ok : launch limit cfg = .ok s ↔
    cfg.rate ≠ 0 ∧ 0 < cfg.interval ∧ ∃ sem results, Chan.make (2 ^ 63 - 1) cfg.maxInflight.toInt = .ok sem ∧
      Chan.make limit (cfg.maxInflight * 2).toInt = .ok results ∧ s = .new sem results := by
  unfold launch
  by_cases hrate : cfg.rate = 0
  · simp [hrate, throw, throwThe, MonadExceptOf.throw, bind, Except.bind]
  · rw [if_neg hrate]
    cases hsem : (Chan.make (2 ^ 63 - 1) cfg.maxInflight.toInt : Except GoPanic (Chan Unit)) with
    | error p => simp [bind, Except.bind]
    | ok sem =>
      cases hresults : (Chan.make limit (cfg.maxInflight * 2).toInt : Except GoPanic (Chan Sample)) with
      | error p => simp [bind, Except.bind]
      | ok results =>
        by_cases hinterval : cfg.interval ≤ 0
        · simp [hinterval, Int64.not_lt.2 hinterval, throw, throwThe, MonadExceptOf.throw, bind, Except.bind]
        · simp [hinterval, hrate, Int64.not_le.1 hinterval, pure, Except.pure, bind, Except.bind, eq_comm]

theorem toInt_pos {x : Int64} (h : 0 < x) : 0 < x.toInt := by
  have := Int64.lt_iff_toInt_lt.1 h
  rwa [Int64.toInt_zero] at this

theorem inv_new {sem : Chan Unit} {results : Chan Sample} (hsem : Chan.make (2 ^ 63 - 1) cfg.maxInflight.toInt = .ok sem)
    (hresults : Chan.make limit (cfg.maxInflight * 2).toInt = .ok results) (hmax : 0 < cfg.maxInflight) :
    Inv (.new sem results) := by
  obtain ⟨hlow, -, rfl⟩ := make_eq_ok.1 hsem
  obtain ⟨hlow', -, rfl⟩ := make_eq_ok.1 hresults
  have hpos := toInt_pos hmax
  have hhigh := cfg.maxInflight.toInt_lt
  have hdouble : 0 < (cfg.maxInflight * 2).toInt := by
    -- `2 * maxInflight` is not a multiple of `2 ^ 64`
    have hmod := Int.bmod_add_bdiv (cfg.maxInflight.toInt * 2) (2 ^ 64)
    rw [Int64.toInt_mul, show (2 : Int64).toInt = 2 by decide] at hlow' ⊢
    omega
  refine ⟨rfl, ⟨?_, ?_⟩, rfl, rfl, rfl, rfl, rfl, Nat.le_refl 0, nofun, rfl, fun h => absurd rfl h, nofun, fun k => ?_, nofun⟩
  · simp only [Sys.new]
    omega
  · simp only [Sys.new]
    omega
  · rfl

theorem due_le_iff : due cfg start j ≤ deadline cfg start ↔ j * cfg.interval.toInt ≤ cfg.duration.toInt :=
  add_le_add_iff_left start

theorem lt_of_due (hinterval : 0 < cfg.interval) (hdue : due cfg start j ≤ deadline cfg start) : (j : ℤ) < 2 ^ 63 := by
  have hpos := toInt_pos hinterval
  have hduration := cfg.duration.toInt_lt
  have hle := due_le_iff.1 hdue
  nlinarith

theorem toInt_succ {x : Int64} (hx : 0 ≤ x.toInt) (hlt : x.toInt + 1 < 2 ^ 63) : (x + 1).toInt = x.toInt + 1 := by
  rw [Int64.toInt_add, show (1 : Int64).toInt = 1 by decide, Int.bmod_eq_of_le] <;> omega

theorem connOf_ok {x : Int64} (hconns : 0 < conns) (hx : 0 ≤ x.toInt) :
    connOf conns (x + 1) = .ok (x.toInt.tmod conns).toNat := by
  unfold connOf
  rw [Int64.add_sub_cancel, if_neg (by omega), if_neg (not_lt.2 (Int.tmod_nonneg _ hx))]
  rfl

theorem Inv.go {conn : ℕ} {intended : Time} (h : Inv s) (hmain : s.shared.main = .ticks) (hlast : s.shared.last < j)
    (hj : (j : ℤ) < 2 ^ 63) :
    Inv ⟨{ s.shared with last := j, seq := s.shared.seq + 1, wg := s.shared.wg + 1 },
      s.tasks ++ [.new j conn (s.shared.seq + 1) intended]⟩ := by
  have hseq := h.seq
  have hpaced := h.paced
  have hsucc : (s.shared.seq + 1).toInt = s.tasks.length + 1 := by rw [toInt_succ] <;> omega
  constructor
  case panic => exact h.panic
  case caps => exact h.caps
  case semOpen => exact h.semOpen
  case places => simpa [Dispatch.inflight, Dispatch.new] using h.places
  case wg =>
    have hwg := h.wg
    simp only [tally_append, tally_cons, tally_nil, Dispatch.live, Dispatch.new]
    omega
  case numbers =>
    simp only [List.map_append, h.numbers, List.length_append, List.length_singleton, List.range_succ, List.map_cons,
      List.map_nil, Dispatch.new, hsucc]
  case seq => simpa using hsucc
  case paced =>
    simp only [List.length_append, List.length_singleton]
    omega
  case allEnded =>
    intro hpast
    rw [hmain] at hpast
    exact hpast.elim
  case closed => exact h.closed
  case drained => exact h.drained
  case returned => exact h.returned
  case samples =>
    intro k
    simp only [tally_append, tally_cons, tally_nil, Dispatch.sentAs, Dispatch.sent, Dispatch.new, ite_self, Nat.add_zero]
    exact h.samples k
  case carried => exact forall_mem_concat h.carried nofun

/-- **Every operation keeps the invariant**, and so none panics. -/
theorem inv_step (hconns : 0 < conns) (hinterval : 0 < cfg.interval) (h : Inv s) (hs : step cfg conns start s e = some t) :
    Inv t := by
  obtain ⟨-, hstepped⟩ := stepped_of_step hs
  have hseq : 0 ≤ s.shared.seq.toInt := by
    rw [h.seq]
    exact Int.natCast_nonneg _
  cases hstepped with
  | late hmain hlast hlate =>
    have hclosed : s.shared.results.closed = false := by rw [h.closed, hmain]; rfl
    have hdrained := h.drained
    rw [hmain] at hdrained
    exact { h with
      paced := h.paced.trans hlast.le
      allEnded := nofun
      closed := hclosed
      drained := fun hranging => absurd (hdrained hranging).1 nofun
      returned := nofun }
  | go hmain hlast hdue hnow hconn => exact h.go hmain hlast (lt_of_due hinterval hdue)
  | goPanics hmain hlast hdue hnow hconn =>
    rw [connOf_ok hconns hseq] at hconn
    cases hconn
  | waited hmain hwg =>
    have hclosed : s.shared.results.closed = false := by rw [h.closed, hmain]; rfl
    have hdrained := h.drained
    rw [hmain] at hdrained
    have hlive := h.wg
    exact { h with
      allEnded := fun _ => by simp only; omega
      closed := hclosed
      drained := fun hranging => absurd (hdrained hranging).1 nofun
      returned := nofun }
  | @closed results hmain hclose =>
    obtain ⟨-, hcap, hbuf, hclosed⟩ := close_eq_ok.1 hclose
    have hdrained := h.drained
    rw [hmain] at hdrained
    exact { h with
      caps := ⟨h.caps.1, by rw [hcap]; exact h.caps.2⟩
      allEnded := fun _ => h.allEnded (by rw [hmain]; trivial)
      closed := hclosed
      drained := fun hranging => absurd (hdrained hranging).1 nofun
      returned := nofun
      samples := fun k => by
        simp only [Shared.sent, hbuf]
        exact h.samples k }
  | closePanics hmain hclose =>
    obtain ⟨hclosed, -⟩ := close_eq_error.1 hclose
    rw [h.closed, hmain] at hclosed
    cases hclosed
  | returned hmain hended =>
    have hclosed : s.shared.results.closed = true := by rw [h.closed, hmain]; rfl
    have hdrained := h.drained
    exact { h with
      allEnded := fun _ => h.allEnded (by rw [hmain]; trivial)
      closed := hclosed
      drained := fun hranging => ⟨rfl, (hdrained hranging).2⟩
      returned := fun _ => hended }
  | @collected x results hcollector hrecv =>
    obtain ⟨hbuf, hcap, hclosed⟩ := recv_eq_some.1 hrecv
    exact { h with
      caps := ⟨h.caps.1, by rw [hcap]; exact h.caps.2⟩
      closed := hclosed.trans h.closed
      drained := fun hranging => absurd hcollector hranging
      samples := fun k => by
        have hsamples := h.samples k
        simp only [Shared.sent, hbuf] at hsamples ⊢
        rwa [List.append_assoc] }
  | drained hcollector hrecv =>
    obtain ⟨hclosed, hbuf, -⟩ := recv_eq_end.1 hrecv
    exact { h with
      drained := fun _ => ⟨by rw [← h.closed]; exact hclosed, hbuf⟩
      returned := fun hmain => by
        have := h.returned hmain
        rw [hcollector] at this
        cases this }
  | ended hcollector =>
    have hdrained := h.drained
    rw [hcollector] at hdrained
    exact { h with
      drained := fun _ => hdrained nofun
      returned := fun _ => rfl }
  | dispatch hi ha => exact inv_act h hi ha

end Run

/-! ## Who can proceed -/

section Alive

variable {cfg : RunConfig} {conns i : ℕ} {start : Time} {s t : Sys} {e : Ev} {d : Dispatch} {a : Act}

theorem step_dispatch (h : Inv s) (hi : s.tasks[i]? = some d) (hact : (act s.shared d a).isSome) :
    (step cfg conns start s (.dispatch i a)).isSome := by
  unfold step
  rw [h.panic, if_neg (by simp)]
  simp only [runLocal, hi, Option.bind_some, Option.isSome_map]
  exact hact

theorem step_collect (h : Inv s) (hcollect : (collect s.shared).isSome) :
    (step cfg conns start s .collect).isSome := by
  unfold step
  rw [h.panic, if_neg (by simp)]
  simpa using hcollect

theorem step_finish (h : Inv s) (hfinish : (finish s.shared).isSome) : (step cfg conns start s .finish).isSome := by
  unfold step
  rw [h.panic, if_neg (by simp)]
  simpa using hfinish

/-- A dispatch that holds a place in the semaphore, or has given it back, can proceed, or the collector can. -/
theorem Inv.proceeds (h : Inv s) (hi : s.tasks[i]? = some d) (hlive : d.live = 1) (hpc : d.pc ≠ .acquire) :
    ∃ e, (step cfg conns start s e).isSome := by
  have hopen := h.not_closed hi hlive
  unfold Dispatch.live at hlive
  cases hplace : d.pc with
  | acquire => exact absurd hplace hpc
  | ended =>
    rw [hplace] at hlive
    cases hlive
  | start => exact ⟨.dispatch i (.now 0), step_dispatch h hi (by simp [act, hplace])⟩
  | openStream | writeFrame | readFrame =>
    exact ⟨.dispatch i (.returns none 0), step_dispatch h hi (by simp [act, hplace])⟩
  | finish =>
    refine ⟨.dispatch i .sync, step_dispatch h hi ?_⟩
    simp only [act, hplace]
    split_ifs <;> rfl
  | release =>
    -- the place it holds can be taken back
    have hle := le_tally Dispatch.inflight hi
    have hplaces := h.places
    have hone : d.inflight = 1 := by simp [Dispatch.inflight, hplace]
    refine ⟨.dispatch i .sync, step_dispatch h hi ?_⟩
    simp only [act, hplace, Option.isSome_map]
    rw [Option.isSome_iff_ne_none, ne_eq, recv_eq_none]
    rintro ⟨-, hbuf⟩
    rw [hbuf, List.length_nil] at hplaces
    omega
  | send x =>
    cases hsend : s.shared.results.send x with
    | some r =>
      refine ⟨.dispatch i .sync, step_dispatch h hi ?_⟩
      simp only [act, hplace, hsend]
      cases r <;> rfl
    | none =>
      -- the buffer is full: the collector has something to do
      obtain ⟨-, hfull⟩ := send_eq_none.1 hsend
      have hcap := h.caps.2
      have hranging : s.shared.collector = .ranging := by
        by_contra hne
        obtain ⟨hclosed, -⟩ := h.drained hne
        rw [← h.closed, hopen] at hclosed
        cases hclosed
      refine ⟨.collect, step_collect h ?_⟩
      simp only [collect, hranging]
      cases hrecv : s.shared.results.recv with
      | none =>
        obtain ⟨-, hbuf⟩ := recv_eq_none.1 hrecv
        rw [hbuf, List.length_nil] at hfull
        omega
      | some r =>
        obtain ⟨x, results⟩ := r
        cases x <;> rfl

theorem Inv.dispatching (h : Inv s) (hlive : 0 < tally Dispatch.live s.tasks) :
    ∃ e, (step cfg conns start s e).isSome := by
  obtain ⟨d, hd, hpos⟩ := tally_pos_iff.1 hlive
  have hone : ∀ d : Dispatch, 0 < d.live → d.live = 1 := by
    intro d
    unfold Dispatch.live
    split <;> simp
  by_cases hplace : ∃ d ∈ s.tasks, 0 < d.live ∧ d.pc ≠ .acquire
  · obtain ⟨d, hd, hpos, hpc⟩ := hplace
    obtain ⟨i, hi⟩ := List.mem_iff_getElem?.1 hd
    exact h.proceeds hi (hone d hpos) hpc
  · -- nobody holds a place in the semaphore
    have hacquire : ∀ d ∈ s.tasks, 0 < d.live → d.pc = .acquire :=
      fun d hd hpos => by_contra fun hpc => hplace ⟨d, hd, hpos, hpc⟩
    have hnone : tally Dispatch.inflight s.tasks = 0 := by
      rw [tally_eq_zero_iff]
      intro d hd
      by_cases hpos : 0 < d.live
      · simp [Dispatch.inflight, hacquire d hd hpos]
      · unfold Dispatch.live at hpos
        unfold Dispatch.inflight
        cases hpc : d.pc <;> simp_all
    have hplaces := h.places
    have hcap := h.caps.1
    obtain ⟨i, hi⟩ := List.mem_iff_getElem?.1 hd
    refine ⟨.dispatch i .sync, step_dispatch h hi ?_⟩
    simp only [act, hacquire d hd hpos]
    cases hsend : s.shared.sem.send () with
    | none =>
      obtain ⟨-, hfull⟩ := send_eq_none.1 hsend
      omega
    | some r => cases r <;> rfl

/-- **Nobody is blocked for ever**: until `run` has returned, a goroutine can proceed, or the ticker delivers a tick. -/
theorem Inv.alive (h : Inv s) (hmain : s.shared.main ≠ .returned) : ∃ e, (step cfg conns start s e).isSome := by
  cases hplace : s.shared.main with
  | returned => exact absurd hplace hmain
  | ticks =>
    refine ⟨.tick (s.shared.last + 1) (due cfg start (s.shared.last + 1)), ?_⟩
    unfold step
    rw [h.panic, if_neg (by simp)]
    simp [hplace]
  | wait =>
    by_cases hlive : 0 < tally Dispatch.live s.tasks
    · exact h.dispatching hlive
    · have hwg := h.wg
      refine ⟨.finish, step_finish h ?_⟩
      simp only [finish, hplace]
      rw [if_pos (by omega)]
      rfl
  | close =>
    refine ⟨.finish, step_finish h ?_⟩
    simp only [finish, hplace]
    cases s.shared.results.close <;> rfl
  | done =>
    have hclosed : s.shared.results.closed = true := by rw [h.closed, hplace]; rfl
    cases hcollector : s.shared.collector with
    | ended =>
      refine ⟨.finish, step_finish h ?_⟩
      simp only [finish, hplace]
      rw [if_pos hcollector]
      rfl
    | closing => exact ⟨.collect, step_collect h (by simp [collect, hcollector])⟩
    | ranging =>
      refine ⟨.collect, step_collect h ?_⟩
      simp only [collect, hcollector]
      cases hrecv : s.shared.results.recv with
      | none =>
        obtain ⟨hopen, -⟩ := recv_eq_none.1 hrecv
        rw [hclosed] at hopen
        cases hopen
      | some r =>
        obtain ⟨x, results⟩ := r
        cases x <;> rfl

/-! ## What is left to do -/

def Main.rest : Main → ℕ
  | .ticks => 4
  | .wait => 3
  | .close => 2
  | .done => 1
  | .returned => 0

def Collector.rest : Collector → ℕ
  | .ranging => 2
  | .closing => 1
  | .ended => 0

/-- The operations that a dispatch has before it, and one of the collector for the sample that is not sent. -/
def Dispatch.rest (d : Dispatch) : ℕ :=
  match d.pc with
  | .acquire => 9
  | .start => 8
  | .openStream _ => 7
  | .writeFrame _ => 6
  | .readFrame _ => 5
  | .send _ => 4
  | .release => 2
  | .finish => 1
  | .ended => 0

/-- How many ticks are due before the deadline. -/
def RunConfig.ticks (cfg : RunConfig) : ℕ := (cfg.duration.toInt / cfg.interval.toInt).toNat

/-- What is left to do: ten operations for every tick that may still come, and the rest of those that came. -/
def potential (cfg : RunConfig) (s : Sys) : ℕ :=
  10 * (cfg.ticks - s.shared.last) + s.shared.main.rest + s.shared.collector.rest + s.shared.results.buf.length +
    tally Dispatch.rest s.tasks

theorem le_ticks {j : ℕ} (hinterval : 0 < cfg.interval) (hdue : due cfg start j ≤ deadline cfg start) : j ≤ cfg.ticks := by
  have hpos := toInt_pos hinterval
  have hle := (Int.le_ediv_iff_mul_le hpos).2 (due_le_iff.1 hdue)
  unfold RunConfig.ticks
  omega

/-- **Every operation leaves less to do.** -/
theorem potential_step (hinterval : 0 < cfg.interval) (hs : step cfg conns start s e = some t)
    (ht : t.shared.panic = none) : potential cfg t < potential cfg s := by
  obtain ⟨-, hstepped⟩ := stepped_of_step hs
  unfold potential
  cases hstepped with
  | late hmain hlast hlate =>
    simp only [hmain, Main.rest]
    omega
  | go hmain hlast hdue hnow hconn =>
    have hle := le_ticks hinterval hdue
    simp only [tally_append, tally_cons, tally_nil, Dispatch.rest, Dispatch.new]
    omega
  | goPanics | closePanics => cases ht
  | waited hmain | returned hmain =>
    simp only [hmain, Main.rest]
    omega
  | closed hmain hclose =>
    obtain ⟨-, -, hbuf, -⟩ := close_eq_ok.1 hclose
    simp only [hmain, Main.rest, hbuf]
    omega
  | collected hcollector hrecv =>
    obtain ⟨hbuf, -⟩ := recv_eq_some.1 hrecv
    simp only [hbuf, List.length_cons]
    omega
  | drained hcollector | ended hcollector =>
    simp only [hcollector, Collector.rest]
    omega
  | @dispatch i a d d' γ hi ha =>
    have hset := tally_set Dispatch.rest hi d'
    cases ha with
    | acquirePanics | sendPanics | finishPanics => cases ht
    | sampled hpc =>
      rcases hpc with hpc | hpc | hpc <;> simp only [Dispatch.rest, hpc] at hset ⊢ <;> omega
    | send hpc hsend =>
      obtain ⟨-, -, -, hbuf, -⟩ := send_eq_ok.1 hsend
      simp only [Dispatch.rest, hpc] at hset
      simp only [hbuf, List.length_append, List.length_singleton]
      omega
    | acquire hpc | start hpc | opened hpc | written hpc | release hpc | finish hpc =>
      simp only [Dispatch.rest, hpc] at hset
      simp only
      omega

end Alive

/-! ## Every sample once -/

def dispatchedTicks (cfg : RunConfig) (start : Time) (es : List Ev) : List ℕ :=
  es.filterMap fun
    | .tick j now => if deadline cfg start < now then none else some j
    | _ => none

/-- **What is promised of a run** that the events `es` have led to `s`: no operation has panicked, a `send` on a closed
channel in particular; no more dispatches than `maxInflight` hold a place in the semaphore; when `results` is closed, they have
all ended; if `run` has returned, there is one sample for each number of a dispatched tick; and if not, it can go on. -/
structure Delivered (cfg : RunConfig) (conns : ℕ) (start : Time) (es : List Ev) (s : Sys) : Prop where
  panic : s.shared.panic = none
  inflight : (tally Dispatch.inflight s.tasks : ℤ) ≤ cfg.maxInflight.toInt
  closed : s.shared.results.closed = true → ∀ d ∈ s.tasks, d.pc = .ended
  returned : s.shared.main = .returned →
    (s.shared.collected.map fun x => x.seq.toInt).Perm
      ((List.range (dispatchedTicks cfg start es).length).map fun n : ℕ => (n : ℤ) + 1)
  alive : s.shared.main ≠ .returned → ∃ e, (step cfg conns start s e).isSome

/-- **`run` delivers every sample once**: it gets to its loop, every run keeps what is promised, and none goes on for ever. -/
def RunDelivers (limit : ℕ) (cfg : RunConfig) (conns : ℕ) (start : Time) : Prop :=
  ∃ s₀, launch limit cfg = .ok s₀ ∧ ∀ es s, Run (step cfg conns start) Any s₀ es s →
    Delivered cfg conns start es s ∧ es.length ≤ 10 * cfg.ticks + 6

section Delivered

variable {limit conns : ℕ} {cfg : RunConfig} {start : Time} {s s₀ t : Sys} {e : Ev} {es : List Ev}

theorem step_cap (hs : step cfg conns start s e = some t) : t.shared.sem.cap = s.shared.sem.cap := by
  obtain ⟨-, hstepped⟩ := stepped_of_step hs
  cases hstepped with
  | dispatch hi ha =>
    cases ha with
    | acquire hpc hsend =>
      obtain ⟨-, -, hcap, -⟩ := send_eq_ok.1 hsend
      exact hcap
    | @release x sem hpc hrecv =>
      cases x with
      | some u => exact (recv_eq_some.1 hrecv).2.1
      | none => rw [(recv_eq_end.1 hrecv).2.2]
    | _ => rfl
  | _ => rfl

theorem step_ticks (hs : step cfg conns start s e = some t) (ht : t.shared.panic = none) :
    t.tasks.map Dispatch.tick = s.tasks.map Dispatch.tick ++ dispatchedTicks cfg start [e] := by
  obtain ⟨-, hstepped⟩ := stepped_of_step hs
  cases hstepped with
  | late hmain hlast hlate => simp [dispatchedTicks, hlate]
  | go hmain hlast hdue hnow hconn => simp [dispatchedTicks, not_lt.2 hnow, Dispatch.new]
  | goPanics => cases ht
  | dispatch hi ha =>
    rw [map_set_of_eq hi _ ha.const.2.1]
    simp [dispatchedTicks]
  | _ => simp [dispatchedTicks]

/-- **The invariant of a run.** -/
theorem inv_run (hconns : 0 < conns) (hinterval : 0 < cfg.interval) (h0 : Inv s₀) (hnone : s₀.tasks = [])
    (hrun : Run (step cfg conns start) Any s₀ es s) :
    Inv s ∧ s.shared.sem.cap = s₀.shared.sem.cap ∧ s.tasks.map Dispatch.tick = dispatchedTicks cfg start es ∧
      es.length + potential cfg s ≤ potential cfg s₀ := by
  induction hrun with
  | nil => exact ⟨h0, rfl, by rw [hnone]; rfl, by simp⟩
  | @snoc es u v e _ _ hs ih =>
    obtain ⟨hinv, hcap, hticks, hpotential⟩ := ih
    have hinv' := inv_step hconns hinterval hinv hs
    have hless := potential_step hinterval hs hinv'.panic
    refine ⟨hinv', (step_cap hs).trans hcap, ?_, ?_⟩
    · rw [step_ticks hs hinv'.panic, hticks, dispatchedTicks, dispatchedTicks, dispatchedTicks, List.filterMap_append]
    · rw [List.length_append, List.length_singleton]
      omega

/-- When every dispatch has ended, the samples have the numbers of the dispatches. -/
theorem Inv.perm (h : Inv s) (hmain : s.shared.main = .returned) :
    (s.shared.collected.map Sample.seq).Perm (s.tasks.map Dispatch.seq) := by
  have hended := h.returned hmain
  obtain ⟨-, hbuf⟩ := h.drained (by rw [hended]; nofun)
  have hpast := h.allEnded (by rw [hmain]; trivial)
  rw [List.perm_iff_count]
  intro k
  have hsamples := h.samples k
  rw [Shared.sent, hbuf, List.append_nil] at hsamples
  rw [hsamples, count_map_eq_tally]
  refine tally_congr fun d hd => ?_
  have hlive := tally_eq_zero_iff.1 hpast d hd
  have hsent : d.sent = 1 := by
    unfold Dispatch.live at hlive
    unfold Dispatch.sent
    cases hpc : d.pc <;> simp_all
  rw [Dispatch.sentAs, hsent]

theorem Inv.delivered (h : Inv s) (hcap : s.shared.sem.cap = cfg.maxInflight.toInt.toNat) (hmax : 0 < cfg.maxInflight.toInt)
    (hticks : s.tasks.map Dispatch.tick = dispatchedTicks cfg start es) : Delivered cfg conns start es s where
  panic := h.panic
  inflight := by
    have hplaces := h.places
    have hfits := s.shared.sem.fits
    omega
  closed := by
    intro hclosed d hd
    rw [h.closed] at hclosed
    have hlive := tally_eq_zero_iff.1 (h.allEnded (Main.pastWait_of_hasClosed hclosed)) d hd
    unfold Dispatch.live at hlive
    split at hlive
    · assumption
    · cases hlive
  returned := by
    intro hmain
    have hperm := (h.perm hmain).map Int64.toInt
    have hlen : s.tasks.length = (dispatchedTicks cfg start es).length := by rw [← hticks, List.length_map]
    rw [List.map_map, List.map_map] at hperm
    rw [← hlen, ← h.numbers]
    exact hperm
  alive := h.alive

theorem interval_pos_iff : 0 < cfg.interval ↔ 0 < cfg.rate ∧ cfg.rate ≤ 1000000000 := by
  have hsecond : (1000000000 : Int64).toInt = 1000000000 := by decide
  rw [Int64.lt_iff_toInt_lt, Int64.lt_iff_toInt_lt, Int64.le_iff_toInt_le, RunConfig.interval, Int64.toInt_div, hsecond,
    Int64.toInt_zero]
  have hsmall : ((1000000000 : ℤ).tdiv cfg.rate.toInt).natAbs ≤ 1000000000 := by
    rw [Int.natAbs_tdiv]
    exact Nat.div_le_self _ _
  rw [Int.bmod_eq_of_le (by omega) (by omega)]
  rcases lt_trichotomy cfg.rate.toInt 0 with hneg | hzero | hpos
  · have hnonpos : (1000000000 : ℤ).tdiv cfg.rate.toInt ≤ 0 := Int.tdiv_nonpos_of_nonneg_of_nonpos (by omega) hneg.le
    omega
  · rw [hzero]
    simp
  · rw [Int.tdiv_eq_ediv_of_nonneg (by omega)]
    have hle := Int.le_ediv_iff_mul_le (a := 1) (b := 1000000000) hpos
    omega

theorem double_fits_iff (hmax : 0 < cfg.maxInflight) :
    0 ≤ (cfg.maxInflight * 2).toInt ∧ (cfg.maxInflight * 2).toInt ≤ limit ↔
      2 * cfg.maxInflight.toInt < 2 ^ 63 ∧ 2 * cfg.maxInflight.toInt ≤ limit := by
  have hpos := toInt_pos hmax
  have hhigh := cfg.maxInflight.toInt_lt
  rw [Int64.toInt_mul, show (2 : Int64).toInt = 2 by decide]
  by_cases hfits : 2 * cfg.maxInflight.toInt < 2 ^ 63
  · rw [Int.bmod_eq_of_le (by omega) (by omega)]
    omega
  · have hmod := Int.bmod_add_bdiv (cfg.maxInflight.toInt * 2) (2 ^ 64)
    have hlt := Int.bmod_lt (x := cfg.maxInflight.toInt * 2) (m := 2 ^ 64) (by omega)
    have hle := Int.le_bmod (x := cfg.maxInflight.toInt * 2) (m := 2 ^ 64) (by omega)
    omega

/-- **When `run` delivers every sample once.**  For every `maxInflight` of at least one and every list of connections that is
not empty: exactly if the rate is one that a ticker can have, and `make` accepts a buffer for `2 * maxInflight` samples.
Otherwise it panics before its loop. -/
theorem runDelivers_iff (hconns : 0 < conns) (hmax : 0 < cfg.maxInflight) :
    (RunDelivers limit cfg conns start ↔
      (0 < cfg.rate ∧ cfg.rate ≤ 1000000000) ∧
        2 * cfg.maxInflight.toInt < 2 ^ 63 ∧ 2 * cfg.maxInflight.toInt ≤ limit) ∧
      (¬ RunDelivers limit cfg conns start → ∃ p, launch limit cfg = .error p) := by
  rw [← interval_pos_iff, ← double_fits_iff hmax]
  have hlaunched : ∀ s₀, launch limit cfg = .ok s₀ →
      0 < cfg.interval ∧ 0 ≤ (cfg.maxInflight * 2).toInt ∧ (cfg.maxInflight * 2).toInt ≤ limit := by
    intro s₀ hlaunch
    obtain ⟨-, hinterval, sem, results, -, hresults, -⟩ := launch_eq_ok.1 hlaunch
    obtain ⟨hlow, hhigh, -⟩ := make_eq_ok.1 hresults
    exact ⟨hinterval, hlow, hhigh⟩
  have hdelivers : 0 < cfg.interval ∧ 0 ≤ (cfg.maxInflight * 2).toInt ∧ (cfg.maxInflight * 2).toInt ≤ limit →
      RunDelivers limit cfg conns start := by
    rintro ⟨hinterval, hlow, hhigh⟩
    have hpos := toInt_pos hmax
    have hlt := cfg.maxInflight.toInt_lt
    have hrate : cfg.rate ≠ 0 := by
      rintro hzero
      have := (interval_pos_iff.1 hinterval).1
      rw [hzero] at this
      exact absurd this (by decide)
    have hsem : Chan.make (2 ^ 63 - 1) cfg.maxInflight.toInt =
        .ok (⟨cfg.maxInflight.toInt.toNat, [], false, Nat.zero_le _⟩ : Chan Unit) :=
      make_eq_ok.2 ⟨hpos.le, by omega, rfl⟩
    have hresults : Chan.make limit (cfg.maxInflight * 2).toInt =
        .ok (⟨(cfg.maxInflight * 2).toInt.toNat, [], false, Nat.zero_le _⟩ : Chan Sample) :=
      make_eq_ok.2 ⟨hlow, hhigh, rfl⟩
    refine ⟨_, launch_eq_ok.2 ⟨hrate, hinterval, _, _, hsem, hresults, rfl⟩, fun es s hrun => ?_⟩
    obtain ⟨hinv, hcap, hticks, hpotential⟩ := inv_run hconns hinterval (inv_new hsem hresults hmax) rfl hrun
    refine ⟨hinv.delivered (hcap.trans rfl) hpos hticks, ?_⟩
    have hbegin : potential cfg (.new ⟨cfg.maxInflight.toInt.toNat, [], false, Nat.zero_le _⟩
        ⟨(cfg.maxInflight * 2).toInt.toNat, [], false, Nat.zero_le _⟩) = 10 * cfg.ticks + 6 := by
      simp [potential, Sys.new, Main.rest, Collector.rest]
    omega
  refine ⟨⟨fun hrun => ?_, hdelivers⟩, fun hnot => ?_⟩
  · obtain ⟨s₀, hlaunch, -⟩ := hrun
    exact hlaunched s₀ hlaunch
  · cases hlaunch : launch limit cfg with
    | error p => exact ⟨p, rfl⟩
    | ok s₀ => exact absurd (hdelivers (hlaunched s₀ hlaunch)) hnot

end Delivered

/-! ## Two runs -/

/-- Ten requests a second for a second, one at a time. -/
def oneAtATime : RunConfig := { rate := 10, duration := 1000000000, maxInflight := 1 }

/-- Two dispatches, of which the second gets the place in the semaphore first and fails to open its stream. -/
def twoDispatches : List Ev :=
  [.tick 1 100000000, .tick 2 200000000, .dispatch 1 .sync, .dispatch 1 (.now 200000100),
    .dispatch 1 (.returns (some "no stream") 200000200), .dispatch 1 .sync, .dispatch 1 .sync, .dispatch 0 .sync,
    .dispatch 0 (.now 200000300), .dispatch 0 (.returns none 0), .collect, .dispatch 0 (.returns none 0),
    .dispatch 0 (.returns none 200000400), .tick 11 1100000000, .dispatch 0 .sync, .dispatch 0 .sync, .dispatch 1 .sync,
    .dispatch 0 .sync, .finish, .finish, .collect, .collect, .collect, .finish]

def launched : Sys := .new ⟨1, [], false, Nat.zero_le _⟩ ⟨2, [], false, Nat.zero_le _⟩

/-- It delivers both samples, the second one first. -/
theorem runDelivers_twoDispatches :
    RunDelivers 1000 oneAtATime 1 0 ∧ launch 1000 oneAtATime = .ok launched ∧
      ∃ s, Run (step oneAtATime 1 0) Any launched twoDispatches s ∧
        s.shared.main = .returned ∧ s.shared.collected.map Sample.seq = [2, 1] := by
  have hexec : (exec (step oneAtATime 1 0) Any launched twoDispatches).map
      (fun s => (s.shared.main, s.shared.collected.map Sample.seq)) = some (.returned, [2, 1]) := by
    decide
  obtain ⟨s, hs, hlast⟩ := Option.map_eq_some_iff.1 hexec
  obtain ⟨hmain, hseqs⟩ := Prod.mk.inj hlast
  exact ⟨(runDelivers_iff (by decide) (by decide)).1.2 (by decide), rfl, s, Run.of_exec hs, hmain, hseqs⟩

/-- **The counter-example.**  For `2 ^ 62` places in the semaphore, `cfg.maxInflight*2` is negative, and `make` panics. -/
theorem huge_maxInflight_panics :
    ¬ ∀ (limit : ℕ) (cfg : RunConfig) (conns : ℕ) (start : Time), 0 < conns → 0 < cfg.maxInflight →
      0 < cfg.rate ∧ cfg.rate ≤ 1000000000 → RunDelivers limit cfg conns start := by
  intro h
  obtain ⟨s₀, hlaunch, -⟩ := h (2 ^ 40) { rate := 100, duration := 1000000000, maxInflight := 4611686018427387904 } 1 0
    (by decide) (by decide) (by decide)
  obtain ⟨-, -, sem, results, -, hresults, -⟩ := launch_eq_ok.1 hlaunch
  obtain ⟨hlow, -, -⟩ := make_eq_ok.1 hresults
  exact absurd hlow (by decide)

end ServiceProxy.Bench
