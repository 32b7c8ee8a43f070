import Reverb.System
import Reverb.Properties.Sampler
import Reverb.Properties.Worker

/-!
# `requested_` の勘定

`RunWorker` は `mu_` の中で `samples_to_stream` を取って `requested_` に足し、stream が
終わると、入れられなかった分を `requested_` から引く。thread がどの順に進み、stream が
どこで終わっても（失敗、`UNAVAILABLE`、`Cancel`、queue が閉じる）、次が成り立つ。

* `0 ≤ requested_ ≤ max_samples_`
* `requested_` は、終わった stream が queue に入れた数と、走っている stream の
  `samples_to_stream` の和
* queue に入った数、取り出した数、`returned_` は `max_samples_` を超えない
* `returned_` が `max_samples_` に届いたときには queue は閉じている

証明は不変条件 `World.Inv` を一歩ずつ保つこと（`World.step_inv`）による。stream が
`samples_to_stream` 以下の sample しか入れないことは、`OpenStreamAndFetch` のモデルから
得る（`openStreamAndFetch_pushes`）。
-/

namespace Reverb

variable {P ε : Type}

/-! ## worker の stream -/

theorem length_pushedSamples_roundsTrace (rounds : List (SampleStreamRequest × List (Sample ε))) :
    (pushedSamples (roundsTrace rounds)).length = (rounds.map (·.2.length)).sum := by
  induction rounds with
  | nil => rfl
  | cons q rounds ih =>
    rw [roundsTrace_cons, List.map_cons, List.sum_cons, ← ih]
    simp [pushedSamples, List.filterMap_map, Function.comp_def]

/-- stream は `samples_to_stream` 以下の sample を queue に入れ、入れた数を返す。 -/
theorem openStreamAndFetch_pushes (codec : Codec P ε) {w : Worker} {env : Env P} {n : Int}
    {trace : List (Event ε)} {count : Int} {status : Status} (hn : 0 ≤ n)
    (h : openStreamAndFetch codec w env n = some (trace, count, status)) :
    count = (pushedSamples trace).length ∧ count ≤ n := by
  obtain ⟨rounds, rfl, -, -, -, -, hcount, hle, -⟩ := openStreamAndFetch_some codec w env hn h
  exact ⟨by rw [hcount, length_pushedSamples_roundsTrace], hle⟩

/-- 最初の `Write` が false を返す stream では、何も書かず何も入れずに、`Finish()` の status と
0 を返す。 -/
theorem openStreamAndFetch_writeFails (codec : Codec P ε) {w : Worker} (hw : w.closed = false)
    {env : Env P} (henv : env.writes.head? ≠ some true) {n : Int} (hn : 0 < n) :
    openStreamAndFetch codec w env n = some ([], 0, env.finish) := by
  unfold openStreamAndFetch
  rw [if_neg (by simp [hw]), requestLoop_noWrite codec hn henv]
  rfl

/-! ## 数 -/

namespace WorkerPc

/-- thread が取っている `samples_to_stream`。stream から戻った後の区間で返す。 -/
def reservation : WorkerPc ε → Int
  | reserved samplesToStream => samplesToStream
  | streaming samplesToStream _ _ => samplesToStream
  | _ => 0

/-- 走っている stream が、これまでに queue に入れた sample の数。 -/
def inFlight : WorkerPc ε → Int
  | streaming _ pushes result => result.1 - pushes.length
  | _ => 0

/-- 位置が持つ数の範囲：stream は取った数以下の sample を入れる。 -/
def Valid : WorkerPc ε → Prop
  | reserved samplesToStream => 0 ≤ samplesToStream
  | streaming samplesToStream pushes result =>
    pushes.length ≤ result.1 ∧ result.1 ≤ samplesToStream
  | _ => True

@[simp] theorem reservation_waiting : (waiting : WorkerPc ε).reservation = 0 := rfl
@[simp] theorem reservation_stopped : (stopped : WorkerPc ε).reservation = 0 := rfl
@[simp] theorem reservation_reserved (n : Int) : (reserved n : WorkerPc ε).reservation = n := rfl
@[simp] theorem reservation_streaming (n : Int) (pushes : List (Sample ε)) (result : Int × Status) :
    (streaming n pushes result).reservation = n := rfl
@[simp] theorem inFlight_waiting : (waiting : WorkerPc ε).inFlight = 0 := rfl
@[simp] theorem inFlight_stopped : (stopped : WorkerPc ε).inFlight = 0 := rfl
@[simp] theorem inFlight_reserved (n : Int) : (reserved n : WorkerPc ε).inFlight = 0 := rfl
@[simp] theorem inFlight_streaming (n : Int) (pushes : List (Sample ε)) (result : Int × Status) :
    (streaming n pushes result).inFlight = result.1 - pushes.length := rfl
@[simp] theorem ofReserve_some (n : Int) : (ofReserve (some n) : WorkerPc ε) = reserved n := rfl
@[simp] theorem ofReserve_none : (ofReserve none : WorkerPc ε) = stopped := rfl

theorem inFlight_le_reservation {pc : WorkerPc ε} (h : pc.Valid) :
    0 ≤ pc.reservation ∧ pc.inFlight ≤ pc.reservation := by
  cases pc with
  | reserved n => exact ⟨h, h⟩
  | streaming n pushes result => simp only [Valid] at h; simp only [reservation, inFlight]; omega
  | waiting | stopped => simp [reservation, inFlight]

end WorkerPc

namespace ReplaySampler

/-- 今の sample に行が残っていれば 1。 -/
def activeCount (r : ReplaySampler ε) : Nat :=
  if r.activeSample.any fun s => !s.isEndOfSample then 1 else 0

theorem reserve_cases {r r' : ReplaySampler ε} {result : Option Int}
    (hper : 1 ≤ r.maxSamplesPerStream) (h : r.reserve = some (result, r')) :
    result = none ∧ r' = r ∨ ∃ n, result = some n ∧ r.shouldStopWorkers = false ∧ 1 ≤ n ∧
      r.requested + n ≤ r.maxSamples ∧ r' = { r with requested := r.requested + n } := by
  unfold reserve at h
  split at h
  · rename_i htrig
    split at h
    · obtain ⟨rfl, rfl⟩ := Prod.mk.inj (Option.some.inj h)
      exact .inl ⟨rfl, rfl⟩
    · rename_i hstop
      simp only [hstop, Bool.false_or, decide_eq_true_eq] at htrig
      obtain ⟨rfl, rfl⟩ := Prod.mk.inj (Option.some.inj h)
      exact .inr ⟨_, rfl, by simpa using hstop, by omega, by omega, rfl⟩
  · cases h

/-- stream が `UNAVAILABLE` でない失敗で終わり、まだ失敗を覚えていなければ、それを覚えて queue を
閉じ、worker は戻る。 -/
theorem finishStream_cases {r r' : ReplaySampler ε} {n : Int} {result : Int × Status}
    {stop : Bool} (h : r.finishStream n result = (stop, r')) :
    stop = true ∧ r.streamStatus.ok = true ∧ result.2.ok = false ∧
      result.2.code ≠ .unavailable ∧
      r' = { r with
        requested := r.requested - (n - result.1)
        streamStatus := result.2
        samples := r.samples.close } ∨
    stop = false ∧ r' = { r with requested := r.requested - (n - result.1) } := by
  unfold finishStream at h
  dsimp only at h
  split at h <;> obtain ⟨rfl, rfl⟩ := Prod.mk.inj h
  · rename_i hfail
    simp only [Bool.and_eq_true, Bool.not_eq_true', bne_iff_ne, ne_eq] at hfail
    exact .inl ⟨rfl, hfail.1.1, hfail.1.2, hfail.2, rfl⟩
  · exact .inr ⟨rfl, rfl⟩

theorem finishStream_fields {r r' : ReplaySampler ε} {n : Int} {result : Int × Status}
    {stop : Bool} (h : r.finishStream n result = (stop, r')) :
    r'.requested = r.requested - (n - result.1) ∧ r'.returned = r.returned ∧
      r'.maxSamples = r.maxSamples ∧ r'.maxSamplesPerStream = r.maxSamplesPerStream ∧
      r'.activeCount = r.activeCount ∧ r'.samples.items = r.samples.items ∧
      (r.samples.closed = true → r'.samples.closed = true) := by
  rcases finishStream_cases h with ⟨-, -, -, -, rfl⟩ | ⟨-, rfl⟩ <;> simp [activeCount, Queue.close]

theorem takeTimestep_counts {r r' : ReplaySampler ε} {data : List (Tensor ε)} {eos : Bool}
    (h : r.takeTimestep = some (.ok (data, eos), r')) :
    r'.activeCount + (if eos then 1 else 0) + r'.samples.items.length
      = r.activeCount + r.samples.items.length ∧
    r'.returned = r.returned ∧ r'.requested = r.requested ∧ r'.maxSamples = r.maxSamples ∧
    r'.maxSamplesPerStream = r.maxSamplesPerStream ∧ r'.samples.closed = r.samples.closed := by
  obtain ⟨status, r₁, a, a', hm, ha, hg, rfl, rfl⟩ := takeTimestep_ok h
  have hend := Sample.isEndOfSample_of_getNextTimestep hg
  rcases maybeSampleNext_cases hm with rfl | ⟨-, -, hall, s, rest, hitems, rfl⟩
  · simp only [activeCount, ha, Option.any_some, hend]
    rcases Bool.eq_false_or_eq_true a'.isEndOfSample with hb | hb <;> simp [hb]
  · cases ha
    have : r.activeCount = 0 := by
      cases hr : r.activeSample with
      | none => simp [activeCount, hr]
      | some b => simp [activeCount, hr, hall b hr]
    rw [this, hitems]
    simp only [activeCount, Option.any_some, List.length_cons]
    rcases Bool.eq_false_or_eq_true a'.isEndOfSample with hb | hb <;> simp [hb] <;> omega

theorem takeSample_counts {r r' : ReplaySampler ε} {data : List (Tensor ε)}
    (h : r.takeSample = some (.ok data, r')) :
    r'.activeCount = r.activeCount ∧ r'.samples.items.length + 1 = r.samples.items.length ∧
    r'.returned = r.returned ∧ r'.requested = r.requested ∧ r'.maxSamples = r.maxSamples ∧
    r'.maxSamplesPerStream = r.maxSamplesPerStream ∧ r'.samples.closed = r.samples.closed := by
  obtain ⟨-, s, rest, hitems, -, rfl⟩ := takeSample_ok h
  simp [activeCount, hitems]

end ReplaySampler

namespace World

/-- 取り出したが、まだ `returned_` に数えていない sample の数。 -/
def pendingCount (w : World ε) : Nat :=
  w.sampler.activeCount + if w.consumer = .counting then 1 else 0

/-- sampler の数の不変条件。`m` は `max_samples_`。 -/
structure Inv (m : Int) (w : World ε) : Prop where
  maxSamples : w.sampler.maxSamples = m
  perStream : 1 ≤ w.sampler.maxSamplesPerStream
  requested_le : w.sampler.requested ≤ m
  requested_eq : w.sampler.requested = w.finished + (w.workers.map (·.pc.reservation)).sum
  pushed_eq : (w.pushed : Int) = w.finished + (w.workers.map (·.pc.inFlight)).sum
  finished_nonneg : 0 ≤ w.finished
  threads : ∀ t ∈ w.workers, t.pc.Valid
  returned_eq : w.sampler.returned + w.pendingCount + w.sampler.samples.items.length = w.pushed
  closed_of_returned : w.sampler.returned = m → w.sampler.samples.closed = true

theorem sum_map_set {α : Type} {l : List α} {i : Nat} {t : α} (x : α) (f : α → Int)
    (h : l[i]? = some t) : ((l.set i x).map f).sum = (l.map f).sum - f t + f x := by
  induction l generalizing i with
  | nil => simp at h
  | cons y ys ih =>
    cases i with
    | zero =>
      simp only [List.getElem?_cons_zero, Option.some.injEq] at h
      subst h
      simp only [List.set_cons_zero, List.map_cons, List.sum_cons]
      ring
    | succ i =>
      simp only [List.getElem?_cons_succ] at h
      simp only [List.set_cons_succ, List.map_cons, List.sum_cons, ih h]
      ring

theorem threads_set {l : List (WorkerThread ε)} {i : Nat} {x : WorkerThread ε}
    (h : ∀ t ∈ l, t.pc.Valid) (hx : x.pc.Valid) : ∀ t ∈ l.set i x, t.pc.Valid :=
  fun t ht => (List.mem_or_eq_of_mem_set ht).elim (h t) fun heq => heq ▸ hx

variable {m : Int}

theorem init_inv {maxSamples maxSamplesPerStream numWorkers : Int} {workers : List Worker}
    (hmax : 1 ≤ maxSamples) (hper : 1 ≤ maxSamplesPerStream) :
    Inv maxSamples (init maxSamples maxSamplesPerStream numWorkers workers : World ε) where
  maxSamples := rfl
  perStream := hper
  requested_le := by simp [init, ReplaySampler.init]; omega
  requested_eq := by simp [init, ReplaySampler.init, Function.comp_def]
  pushed_eq := by simp [init, Function.comp_def]
  finished_nonneg := le_refl _
  threads := by simp [init, WorkerPc.Valid]
  returned_eq := by simp [init, ReplaySampler.init, pendingCount, ReplaySampler.activeCount]
  closed_of_returned := by simp [init, ReplaySampler.init]; omega

/-- worker の一つの thread だけが進む単位。数の釣り合いを、その thread の変化から言う。 -/
theorem Inv.setWorker {w : World ε} (hi : Inv m w) {i : Nat} {t : WorkerThread ε}
    (hti : w.workers[i]? = some t) {x : WorkerThread ε} {r : ReplaySampler ε}
    {finished : Int} {pushed : Nat} (hmax : r.maxSamples = m) (hper : 1 ≤ r.maxSamplesPerStream)
    (hle : r.requested ≤ m)
    (hreq : r.requested - finished
      = w.sampler.requested - w.finished - t.pc.reservation + x.pc.reservation)
    (hpushed : (pushed : Int) - finished = w.pushed - w.finished - t.pc.inFlight + x.pc.inFlight)
    (hfin : 0 ≤ finished) (hx : x.pc.Valid)
    (hret : r.returned + r.activeCount + r.samples.items.length + w.pushed
      = w.sampler.returned + w.sampler.activeCount + w.sampler.samples.items.length + pushed)
    (hclosed : r.returned = m → r.samples.closed = true) :
    Inv m { w with sampler := r, workers := w.workers.set i x, finished, pushed } where
  maxSamples := hmax
  perStream := hper
  requested_le := hle
  requested_eq := by
    have := hi.requested_eq
    dsimp only
    rw [sum_map_set x _ hti]
    omega
  pushed_eq := by
    have := hi.pushed_eq
    dsimp only
    rw [sum_map_set x _ hti]
    omega
  finished_nonneg := hfin
  threads := threads_set hi.threads hx
  returned_eq := by
    have := hi.returned_eq
    simp only [pendingCount] at this ⊢
    push_cast at this hret ⊢
    omega
  closed_of_returned := hclosed

/-- 利用者の thread の単位と `Close`。worker の thread には触らない。 -/
theorem Inv.setSampler {w : World ε} (hi : Inv m w) {r : ReplaySampler ε} {consumer : ConsumerPc}
    (hmax : r.maxSamples = w.sampler.maxSamples)
    (hper : r.maxSamplesPerStream = w.sampler.maxSamplesPerStream)
    (hreq : r.requested = w.sampler.requested)
    (hret : r.returned + r.activeCount + (if consumer = .counting then 1 else 0)
      + r.samples.items.length = w.sampler.returned + w.sampler.activeCount
        + (if w.consumer = .counting then 1 else 0) + w.sampler.samples.items.length)
    (hclosed : r.returned = m → r.samples.closed = true) :
    Inv m { w with sampler := r, consumer } where
  maxSamples := hmax.trans hi.maxSamples
  perStream := hper ▸ hi.perStream
  requested_le := hreq ▸ hi.requested_le
  requested_eq := hreq ▸ hi.requested_eq
  pushed_eq := hi.pushed_eq
  finished_nonneg := hi.finished_nonneg
  threads := hi.threads
  returned_eq := by
    have := hi.returned_eq
    simp only [pendingCount] at this hret ⊢
    push_cast at this hret ⊢
    omega
  closed_of_returned := hclosed

/-- **一歩**：どの thread のどの単位も、数の不変条件を保つ。 -/
theorem step_inv {codec : Codec P ε} {w w' : World ε} (h : Step codec w w') (hi : Inv m w) :
    Inv m w' := by
  cases h with
  | @reserve i t result r hti hpc hres =>
    have hv := hi.threads t (List.getElem?_mem hti)
    rcases ReplaySampler.reserve_cases hi.perStream hres with ⟨rfl, rfl⟩ | ⟨n, rfl, -, hn, hle, rfl⟩
    · refine hi.setWorker hti hi.maxSamples hi.perStream hi.requested_le ?_ ?_ hi.finished_nonneg
        trivial rfl hi.closed_of_returned <;> simp [hpc]
    · refine hi.setWorker hti hi.maxSamples hi.perStream
        (by have := hi.maxSamples; dsimp only; omega)
        ?_ ?_ hi.finished_nonneg (show (0 : Int) ≤ n by omega) rfl hi.closed_of_returned
        <;> simp [hpc]
      omega
  | @openStream i t n env trace count status hti hpc hrun =>
    have hv := hi.threads t (List.getElem?_mem hti)
    simp only [hpc, WorkerPc.Valid] at hv
    obtain ⟨hcount, hle⟩ := openStreamAndFetch_pushes codec hv hrun
    refine hi.setWorker hti hi.maxSamples hi.perStream hi.requested_le ?_ ?_ hi.finished_nonneg
      (by simp only [WorkerPc.Valid]; omega) rfl hi.closed_of_returned <;> simp [hpc]
    omega
  | @push i t n s pushes result q hti hpc hpush =>
    have hv := hi.threads t (List.getElem?_mem hti)
    simp only [hpc, WorkerPc.Valid, List.length_cons] at hv
    have hopen := Queue.closed_of_push_true hpush
    rw [Queue.push_true hpush]
    refine hi.setWorker hti hi.maxSamples hi.perStream hi.requested_le ?_ ?_ hi.finished_nonneg
      (by simp only [WorkerPc.Valid]; omega) ?_ fun h => by simp [hi.closed_of_returned h] at hopen
    · simp [hpc]
    · simp [hpc]; omega
    · simp only [ReplaySampler.activeCount, List.length_append, List.length_singleton]; omega
  | @finish i t n result stop r hti hpc hfin =>
    have hv := hi.threads t (List.getElem?_mem hti)
    simp only [hpc, WorkerPc.Valid, List.length_nil, Nat.cast_zero] at hv
    obtain ⟨hreq, hret, hmax, hper, hact, hitems, hcl⟩ := ReplaySampler.finishStream_fields hfin
    have := hi.finished_nonneg
    refine hi.setWorker hti (hmax.trans hi.maxSamples) (hper ▸ hi.perStream)
      (by have := hi.requested_le; omega) ?_ ?_ (by omega) (by cases stop <;> trivial)
      (by rw [hret, hact, hitems]) fun h => hcl (hi.closed_of_returned (hret ▸ h))
    all_goals cases stop <;> simp [hpc, hreq] <;> omega
  | @timestep result r hc ht =>
    rcases result with status | ⟨data, eos⟩
    · cases ReplaySampler.takeTimestep_error ht
      exact hi.setSampler rfl rfl rfl (by simp [hc, ConsumerPc.afterTimestep]) hi.closed_of_returned
    · obtain ⟨hcnt, hret, hreq, hmax, hper, hcl⟩ := ReplaySampler.takeTimestep_counts ht
      refine hi.setSampler hmax hper hreq ?_ fun h => hcl ▸ hi.closed_of_returned (hret ▸ h)
      simp only [hc, hret]
      cases eos <;> simp [ConsumerPc.afterTimestep] at hcnt ⊢ <;> omega
  | @sample result r hc ht =>
    rcases result with status | data
    · cases ReplaySampler.takeSample_error ht
      exact hi.setSampler rfl rfl rfl (by simp [hc, ConsumerPc.afterSample]) hi.closed_of_returned
    · obtain ⟨hact, hlen, hret, hreq, hmax, hper, hcl⟩ := ReplaySampler.takeSample_counts ht
      refine hi.setSampler hmax hper hreq ?_ fun h => hcl ▸ hi.closed_of_returned (hret ▸ h)
      simp [hc, hret, hact, ConsumerPc.afterSample]
      omega
  | count hc =>
    refine hi.setSampler rfl rfl rfl ?_ fun h => ?_
    · simp [hc, ReplaySampler.activeCount]
      ring
    · simp only [ReplaySampler.countReturned] at h ⊢
      rw [if_pos (h.trans hi.maxSamples.symm)]
      rfl
  | @close b r hm =>
    unfold ReplaySampler.markClosed at hm
    split at hm <;> obtain ⟨-, rfl⟩ := Prod.mk.inj hm <;>
      exact hi.setSampler rfl rfl rfl rfl hi.closed_of_returned
  | @cancel i t hcl hti =>
    exact hi.setWorker hti hi.maxSamples hi.perStream hi.requested_le (by simp) (by simp)
      hi.finished_nonneg (hi.threads t (List.getElem?_mem hti)) rfl hi.closed_of_returned
  | closeQueue hcl =>
    exact hi.setSampler rfl rfl rfl rfl fun _ => rfl

/-- 届く状態は、どれも数の不変条件を満たす。 -/
theorem reachable_inv {codec : Codec P ε} {maxSamples maxSamplesPerStream numWorkers : Int}
    {workers : List Worker} (hmax : 1 ≤ maxSamples) (hper : 1 ≤ maxSamplesPerStream)
    {w : World ε}
    (hw : Reachable codec (init maxSamples maxSamplesPerStream numWorkers workers) w) :
    Inv maxSamples w := by
  induction hw with
  | init => exact init_inv hmax hper
  | step _ hstep ih => exact step_inv hstep ih

/-- queue に入った数は `requested_` を超えず、`requested_` は負にならない。 -/
theorem Inv.pushed_le {w : World ε} (hi : Inv m w) :
    0 ≤ w.sampler.requested ∧ (w.pushed : Int) ≤ w.sampler.requested := by
  have hsum : (w.workers.map (·.pc.inFlight)).sum ≤ (w.workers.map (·.pc.reservation)).sum :=
    List.sum_le_sum fun t ht => (WorkerPc.inFlight_le_reservation (hi.threads t ht)).2
  have hnonneg : 0 ≤ (w.workers.map (·.pc.reservation)).sum := List.sum_nonneg fun x hx => by
    obtain ⟨t, ht, rfl⟩ := List.mem_map.1 hx
    exact (WorkerPc.inFlight_le_reservation (hi.threads t ht)).1
  have := hi.requested_eq
  have := hi.pushed_eq
  have := hi.finished_nonneg
  constructor <;> omega

end World

/-- **`requested_` の勘定**：どの thread がどの順に進み、どの stream がどこで終わっても、
`0 ≤ requested_ ≤ max_samples_` で、`requested_` は終わった stream が queue に入れた数と
走っている stream の `samples_to_stream` の和である。queue に入った数、取り出した数、
`returned_` は `max_samples_` を超えず、`returned_` が `max_samples_` に届いたときには
queue は閉じている。 -/
theorem requested_accounting (codec : Codec P ε) {maxSamples maxSamplesPerStream numWorkers : Int}
    {workers : List Worker} (hmax : 1 ≤ maxSamples) (hper : 1 ≤ maxSamplesPerStream)
    {w : World ε}
    (hw : World.Reachable codec (World.init maxSamples maxSamplesPerStream numWorkers workers) w) :
    0 ≤ w.sampler.requested ∧ w.sampler.requested ≤ maxSamples ∧
    w.sampler.requested = w.finished + (w.workers.map (·.pc.reservation)).sum ∧
    (w.pushed : Int) = w.finished + (w.workers.map (·.pc.inFlight)).sum ∧
    (w.pushed : Int) ≤ maxSamples ∧
    w.sampler.returned + w.pendingCount + w.sampler.samples.items.length = w.pushed ∧
    w.sampler.returned ≤ maxSamples ∧
    (w.sampler.returned = maxSamples → w.sampler.samples.closed = true) := by
  have hi := World.reachable_inv hmax hper hw
  obtain ⟨hnonneg, hpushed⟩ := hi.pushed_le
  have hle := hi.requested_le
  have hret := hi.returned_eq
  exact ⟨hnonneg, hle, hi.requested_eq, hi.pushed_eq, by omega, hret, by omega,
    hi.closed_of_returned⟩

/-- 一行の item を一つ届ける stream から、一つの sample を queue に入れる。 -/
theorem openStreamAndFetch_oneRow :
    openStreamAndFetch
      (⟨fun _ => 1, fun _ => .stack [.scalar (.elem ())], fun t _ => t⟩ : Codec Unit Unit)
      ⟨"", 1, by decide, false⟩ ⟨[true], [⟨⟨⟨0, ⟨0, 1⟩⟩, 1, 1⟩, ⟨[()], false⟩⟩], [true], .okStatus⟩ 1
      = some ([.write ⟨"", 1⟩, .push ⟨0, 1, 1, 1, 1, [[.stack [.scalar (.elem ())]]], 0, false⟩],
          1, .okStatus) := by
  have hloop : requestLoop
      (⟨fun _ => 1, fun _ => .stack [.scalar (.elem ())], fun t _ => t⟩ : Codec Unit Unit)
      ⟨"", 1, by decide, false⟩ 1
      ⟨⟨[true], [⟨⟨⟨0, ⟨0, 1⟩⟩, 1, 1⟩, ⟨[()], false⟩⟩], [true], .okStatus⟩, [], 0⟩
      = some (⟨⟨[], [], [], .okStatus⟩, [.write ⟨"", 1⟩,
          .push ⟨0, 1, 1, 1, 1, [[.stack [.scalar (.elem ())]]], 0, false⟩], 1⟩, none) :=
    requestLoop_last _ (by decide) rfl rfl (by decide)
  unfold openStreamAndFetch
  rw [if_neg (by decide), hloop]
  rfl

/-- 同じ stream に二つを一つの request で頼むと、一つ入れたところで `Read` が false を返し、
OK と 1 を返す。 -/
theorem openStreamAndFetch_oneRow_short :
    openStreamAndFetch
      (⟨fun _ => 1, fun _ => .stack [.scalar (.elem ())], fun t _ => t⟩ : Codec Unit Unit)
      ⟨"", 2, by decide, false⟩ ⟨[true], [⟨⟨⟨0, ⟨0, 1⟩⟩, 1, 1⟩, ⟨[()], false⟩⟩], [true], .okStatus⟩ 2
      = some ([.write ⟨"", 2⟩, .push ⟨0, 1, 1, 1, 1, [[.stack [.scalar (.elem ())]]], 0, false⟩],
          1, .okStatus) := by
  have hloop : requestLoop
      (⟨fun _ => 1, fun _ => .stack [.scalar (.elem ())], fun t _ => t⟩ : Codec Unit Unit)
      ⟨"", 2, by decide, false⟩ 2
      ⟨⟨[true], [⟨⟨⟨0, ⟨0, 1⟩⟩, 1, 1⟩, ⟨[()], false⟩⟩], [true], .okStatus⟩, [], 0⟩
      = some (⟨⟨[], [], [], .okStatus⟩, [.write ⟨"", 2⟩,
          .push ⟨0, 1, 1, 1, 1, [[.stack [.scalar (.elem ())]]], 0, false⟩], 1⟩, some .okStatus) :=
    requestLoop_ret _ (by decide) rfl rfl
  unfold openStreamAndFetch
  rw [if_neg (by decide), hloop]
  rfl

/-- worker が二つを取り、stream は一つだけ入れて OK で終わる。戻った後の区間で、入れられなかった
一つを `requested_` から返す。 -/
theorem requested_accounting_short_stream :
    let codec : Codec Unit Unit := ⟨fun _ => 1, fun _ => .stack [.scalar (.elem ())], fun t _ => t⟩
    let w₀ : World Unit := World.init 2 2 1 [⟨"", 2, by decide, false⟩]
    (1 : Int) ≤ 2 ∧ (1 : Int) ≤ 2 ∧ ∃ w, World.Reachable codec w₀ w ∧
      w.sampler.requested = 1 ∧ w.finished = 1 ∧ w.pushed = 1 ∧
      0 ≤ w.sampler.requested ∧ w.sampler.requested ≤ 2 ∧
      w.sampler.requested = w.finished + (w.workers.map (·.pc.reservation)).sum ∧
      (w.pushed : Int) = w.finished + (w.workers.map (·.pc.inFlight)).sum ∧
      (w.pushed : Int) ≤ 2 ∧
      w.sampler.returned + w.pendingCount + w.sampler.samples.items.length = w.pushed ∧
      w.sampler.returned ≤ 2 ∧ (w.sampler.returned = 2 → w.sampler.samples.closed = true) := by
  intro codec w₀
  have hw : World.Reachable codec w₀ _ :=
    .step (.step (.step (.step .init (.reserve (i := 0) rfl rfl rfl))
      (.openStream (i := 0) _ rfl rfl openStreamAndFetch_oneRow_short))
      (.push (i := 0) rfl rfl rfl)) (.finish (i := 0) rfl rfl rfl)
  exact ⟨by decide, by decide, _, hw, rfl, rfl, rfl,
    requested_accounting codec (by decide) (by decide) hw⟩

end Reverb
