import Reverb.Options
import Reverb.Properties.Progress

/-!
# constructor の性質

1. `ReplaySampler.new_some` — constructor が返すのは、既定値を解いた値で始めた `World.init`。
2. `ReplaySampler.new_workers` — 作る worker は一つ以上 `num_workers` 以下で、二つ以上作るのは、
   どの worker にも最初の batch（`max_in_flight_samples_per_worker` 個）を `max_samples_` の
   中で渡せるときだけ。`max_samples_ ≥ 1` なので、`Reverb.Properties.System` などの仮定
   `1 ≤ max_samples_` は constructor が保証する。
3. `nonpositive_perStream_starves` — constructor は `max_samples_per_stream` を `CHECK` しない。
   それが 0 以下に解けると、stream は一つの sample も頼まず、queue には何も入らない。
   `GetNextTimestep` と `GetNextSample` は、queue が閉じるまで待ち、閉じた後は失敗を返す。
   証明は不変条件 `World.Starved` を一歩ずつ保つこと（`World.step_starved`）による。
-/

namespace Reverb

variable {P ε : Type}

namespace ReplaySampler

/-! ## constructor -/

theorem new_some {k : OptionDefaults} {table : String} {options : Options} {w : World ε}
    (h : new k table options = some w) :
    ∃ (maxSamples maxSamplesPerStream n : Int) (hpos : 0 < options.maxInFlightSamplesPerWorker),
      maxSamples = (if options.maxSamples = k.unlimitedMaxSamples then int64Max
        else options.maxSamples) ∧
      maxSamplesPerStream = (if options.maxSamplesPerStream = k.autoSelectValue
        then k.defaultMaxSamplesPerStream else options.maxSamplesPerStream) ∧
      0 < maxSamples ∧ (options.numWorkers = k.autoSelectValue ∨ 0 < options.numWorkers) ∧
      n = min (if options.numWorkers = k.autoSelectValue then k.defaultNumWorkers
        else options.numWorkers) (max 1 (maxSamples.tdiv options.maxInFlightSamplesPerWorker)) ∧
      w = World.init maxSamples maxSamplesPerStream options.numWorkers
        (List.replicate n.toNat ⟨table, options.maxInFlightSamplesPerWorker, hpos, false⟩) := by
  unfold new at h
  dsimp only at h
  generalize (if options.maxSamples = k.unlimitedMaxSamples then int64Max
    else options.maxSamples) = M at h ⊢
  generalize (if options.maxSamplesPerStream = k.autoSelectValue then k.defaultMaxSamplesPerStream
    else options.maxSamplesPerStream) = S at h ⊢
  generalize (if options.numWorkers = k.autoSelectValue then k.defaultNumWorkers
    else options.numWorkers) = N at h ⊢
  split_ifs at h with hmax hpos hnum
  cases h
  exact ⟨_, _, _, hpos, rfl, rfl, hmax, hnum, rfl, rfl⟩

/-- `min N (max 1 (M / m))` 個の worker：一つ以上 `N` 以下で、二つ以上なら `M / m` 以下。 -/
theorem numWorkers_bounds {N M m : Int} (hN : 0 < N) (hM : 0 < M) (hm : 0 < m) :
    1 ≤ min N (max 1 (M.tdiv m)) ∧ min N (max 1 (M.tdiv m)) ≤ N ∧
      (min N (max 1 (M.tdiv m)) = 1 ∨ min N (max 1 (M.tdiv m)) * m ≤ M) := by
  rw [Int.tdiv_eq_ediv hM.le hm.le]
  have hq := Int.ediv_mul_le M (Int.ne_of_gt hm)
  refine ⟨by omega, min_le_left _ _, ?_⟩
  by_cases h1 : M / m ≤ 1
  · exact .inl (by omega)
  · have hle : min N (max 1 (M / m)) ≤ M / m := by omega
    exact .inr ((Int.mul_le_mul_of_nonneg_right hle hm.le).trans hq)

/-- **作る worker の数**：constructor が作る worker は一つ以上、解いた `num_workers` 以下で、
二つ以上作るのは、どの worker にも最初の batch（`max_in_flight_samples_per_worker` 個）を
`max_samples_` の中で渡せるときだけである。どの worker も `max_in_flight_samples_per_worker` 個
ずつ頼み、`RunWorker` の最初の区間で待つところから始まる。`max_samples_` は 1 以上。 -/
theorem new_workers {k : OptionDefaults} {table : String} {options : Options} {w : World ε}
    (hdef : 0 < k.defaultNumWorkers) (h : new k table options = some w) :
    1 ≤ w.sampler.maxSamples ∧ 1 ≤ w.workers.length ∧
      (w.workers.length : Int) ≤ (if options.numWorkers = k.autoSelectValue
        then k.defaultNumWorkers else options.numWorkers) ∧
      (w.workers.length = 1 ∨
        w.workers.length * options.maxInFlightSamplesPerWorker ≤ w.sampler.maxSamples) ∧
      ∀ t ∈ w.workers, t.pc = .waiting ∧ t.worker.table = table ∧
        t.worker.samplesPerRequest = options.maxInFlightSamplesPerWorker ∧
        t.worker.closed = false := by
  obtain ⟨M, _, n, hpos, -, -, hM, hnum, rfl, rfl⟩ := new_some h
  have hN : 0 < (if options.numWorkers = k.autoSelectValue then k.defaultNumWorkers
      else options.numWorkers) := by
    split
    · exact hdef
    · exact hnum.resolve_left ‹_›
  obtain ⟨h1, hle, hcases⟩ := numWorkers_bounds hN hM hpos
  simp only [World.init, ReplaySampler.init, List.length_map, List.length_replicate,
    List.mem_map, List.mem_replicate]
  refine ⟨hM, by omega, by omega, ?_, ?_⟩
  · rcases hcases with h | h
    · exact .inl (by omega)
    · exact .inr (by rwa [Int.toNat_of_nonneg (by omega)])
  · rintro t ⟨x, ⟨-, rfl⟩, rfl⟩
    exact ⟨rfl, rfl, rfl, rfl⟩

theorem new_workers_default :
    let k : OptionDefaults := ⟨-1, -1, 4, 100⟩
    let options : Options := ⟨10, 3, -1, -1⟩
    (0 : Int) < 4 ∧ ∃ w : World Unit, new k "t" options = some w ∧ w.workers.length = 3 ∧
      (w.workers.length = 1 ∨
        w.workers.length * options.maxInFlightSamplesPerWorker ≤ w.sampler.maxSamples) := by
  intro k options
  have h : new k "t" options = some (World.init 10 100 (-1)
      (List.replicate 3 ⟨"t", 3, by decide, false⟩) : World Unit) := rfl
  exact ⟨by decide, _, h, rfl, (new_workers (by decide) h).2.2.2.1⟩

/-! ## `max_samples_per_stream_ ≤ 0` -/

variable {r r' : ReplaySampler ε}

theorem reserve_some_le {n : Int} (h : r.reserve = some (some n, r')) :
    n ≤ r.maxSamplesPerStream ∧ r' = { r with requested := r.requested + n } := by
  unfold reserve at h
  split at h
  · split at h
    · simp at h
    · simp only [Option.some.injEq, Prod.mk.injEq] at h
      obtain ⟨rfl, rfl⟩ := h
      exact ⟨min_le_left _ _, rfl⟩
  · cases h

theorem reserve_none_eq (h : r.reserve = some (none, r')) : r' = r := by
  unfold reserve at h
  split at h
  · split at h
    · exact (Prod.mk.inj (Option.some.inj h)).2.symm
    · simp at h
  · cases h

/-- 空の queue と今の sample がないとき、`GetNextTimestep` の前半は失敗を返し、状態を変えない。 -/
theorem takeTimestep_of_empty {result : Except Status (List (Tensor ε) × Bool)}
    (hitems : r.samples.items = []) (ha : r.activeSample = none)
    (h : r.takeTimestep = some (result, r')) : (∃ e, result = .error e) ∧ r' = r := by
  rcases result with e | out
  · exact ⟨⟨e, rfl⟩, takeTimestep_error h⟩
  · obtain ⟨status, r₁, a, a', hm, ha₁, -, -, -⟩ := takeTimestep_ok h
    rcases maybeSampleNext_cases hm with rfl | ⟨-, -, -, s, rest, hs, -⟩
    · simp [ha] at ha₁
    · simp [hitems] at hs

theorem takeSample_of_empty {result : Except Status (List (Tensor ε))}
    (hitems : r.samples.items = []) (h : r.takeSample = some (result, r')) :
    (∃ e, result = .error e) ∧ r' = r := by
  rcases result with e | data
  · exact ⟨⟨e, rfl⟩, takeSample_error h⟩
  · obtain ⟨-, s, rest, hs, -⟩ := takeSample_ok h
    simp [hitems] at hs

end ReplaySampler

/-- 0 以下の数を頼む stream は、queue に何も入れない。 -/
theorem openStreamAndFetch_nonpos (codec : Codec P ε) {w : Worker} {env : Env P} {n : Int}
    {trace : List (Event ε)} {count : Int} {status : Status} (hn : n ≤ 0)
    (h : openStreamAndFetch codec w env n = some (trace, count, status)) :
    pushedSamples trace = [] := by
  unfold openStreamAndFetch at h
  split at h
  · cases h
    rfl
  · rw [requestLoop, if_neg (by dsimp only; omega)] at h
    simp only [Option.bind_eq_bind, Option.some_bind] at h
    split at h
    · cases h
      rfl
    · cases h

namespace World

/-- `max_samples_per_stream_ ≤ 0` の走りの不変条件：何も頼まれず、何も入らず、何も取り出されない。 -/
structure Starved (w : World ε) : Prop where
  perStream : w.sampler.maxSamplesPerStream ≤ 0
  pushed : w.pushed = 0
  items : w.sampler.samples.items = []
  active : w.sampler.activeSample = none
  returned : w.sampler.returned = 0
  consumer : w.consumer = .idle
  threads : ∀ t ∈ w.workers, t.pc.reservation ≤ 0 ∧ t.pc.pushes = []

variable {w w' : World ε}

/-- 一つの thread の位置を変えても、どの thread も何も頼まず何も入れない。 -/
theorem Starved.threads_set (hs : Starved w) {i : Nat} {x : WorkerThread ε}
    (hx : x.pc.reservation ≤ 0 ∧ x.pc.pushes = []) :
    ∀ t ∈ w.workers.set i x, t.pc.reservation ≤ 0 ∧ t.pc.pushes = [] := fun t ht =>
  (List.mem_or_eq_of_mem_set ht).elim (hs.threads t) fun h => h ▸ hx

/-- **一歩**：どの thread のどの単位も `Starved` を保つ。 -/
theorem step_starved {codec : Codec P ε} (hs : Starved w) (h : Step codec w w') : Starved w' := by
  cases h with
  | @reserve i t result r hti hpc hres =>
    cases result with
    | none =>
      obtain rfl := ReplaySampler.reserve_none_eq hres
      exact { hs with threads := hs.threads_set (by simp) }
    | some n =>
      obtain ⟨hn, rfl⟩ := ReplaySampler.reserve_some_le hres
      have hle : n ≤ 0 := hn.trans hs.perStream
      exact { hs with threads := hs.threads_set ⟨hle, rfl⟩ }
  | @openStream i t n env trace count status hti hpc hrun =>
    have hn := (hs.threads t (List.getElem?_mem hti)).1
    rw [hpc, WorkerPc.reservation_reserved] at hn
    exact { hs with
      threads := hs.threads_set (by simpa using ⟨hn, openStreamAndFetch_nonpos codec hn hrun⟩) }
  | @push i t n s pushes result q hti hpc =>
    have := (hs.threads t (List.getElem?_mem hti)).2
    simp [hpc] at this
  | @finish i t n result stop r hti hpc hfin =>
    obtain ⟨-, hret, hmax, hper, -, hitems, -⟩ := ReplaySampler.finishStream_fields hfin
    have hact : r.activeSample = w.sampler.activeSample := by
      rcases ReplaySampler.finishStream_cases hfin with ⟨-, -, -, -, rfl⟩ | ⟨-, rfl⟩ <;> rfl
    exact ⟨hper ▸ hs.perStream, hs.pushed, hitems ▸ hs.items, hact ▸ hs.active,
      hret ▸ hs.returned, hs.consumer, hs.threads_set (by split <;> simp)⟩
  | @timestep result r hc ht =>
    obtain ⟨⟨e, rfl⟩, rfl⟩ := ReplaySampler.takeTimestep_of_empty hs.items hs.active ht
    exact { hs with consumer := rfl }
  | @sample result r hc ht =>
    obtain ⟨⟨e, rfl⟩, rfl⟩ := ReplaySampler.takeSample_of_empty hs.items ht
    exact { hs with consumer := rfl }
  | count hc => simp [hs.consumer] at hc
  | @close b r hm =>
    unfold ReplaySampler.markClosed at hm
    split at hm <;> obtain ⟨-, rfl⟩ := Prod.mk.inj hm
    · exact hs
    · exact { hs with }
  | @cancel i t hcl hti =>
    exact { hs with threads := hs.threads_set (hs.threads t (List.getElem?_mem hti)) }
  | closeQueue => exact { hs with }

/-- **走り**：`Starved` な状態から先の走りは、どこでも `Starved`。 -/
theorem reachable_starved {codec : Codec P ε} {w₀ : World ε} (hs : Starved w₀)
    (hw : Reachable codec w₀ w) : Starved w := by
  induction hw with
  | init => exact hs
  | step _ hstep ih => exact step_starved ih hstep

end World

/-- **`max_samples_per_stream_ ≤ 0`**：constructor は `max_samples_per_stream` を `CHECK` しない。
それが 0 以下に解けると、どの走りでも queue には一つの sample も入らず、`returned_` は 0 のまま
である。`GetNextTimestep` と `GetNextSample` は、queue が開いている間は待ち、OK を返すことはない。

0 のとき、worker は 0 個の stream を開いては戻ることを繰り返す。負のとき、コードでは最初の
`OpenStreamAndFetch` の `REVERB_CHECK_EQ(num_samples_returned, num_samples)` が落ちてプログラム全体が
止まる。`World.Step` はその `CHECK` を単位がないこととして表すので、モデルではその thread だけが
`OpenStreamAndFetch` の前で止まる。どちらでも、ここに述べたことは成り立つ。 -/
theorem nonpositive_perStream_starves (codec : Codec P ε) {k : OptionDefaults} {table : String}
    {options : Options} {w₀ w : World ε} (hnew : ReplaySampler.new k table options = some w₀)
    (hper : w₀.sampler.maxSamplesPerStream ≤ 0) (hw : World.Reachable codec w₀ w) :
    w.pushed = 0 ∧ w.sampler.samples.items = [] ∧ w.sampler.returned = 0 ∧
      (w.sampler.samples.closed = false →
        w.sampler.getNextTimestep = none ∧ w.sampler.getNextSample = none) ∧
      (∀ out r, w.sampler.getNextTimestep ≠ some (.ok out, r)) ∧
      (∀ data r, w.sampler.getNextSample ≠ some (.ok data, r)) := by
  obtain ⟨M, S, n, hpos, -, -, -, -, -, rfl⟩ := ReplaySampler.new_some hnew
  have hs₀ : World.Starved (World.init M S options.numWorkers
      (List.replicate n.toNat ⟨table, options.maxInFlightSamplesPerWorker, hpos, false⟩) :
        World ε) :=
    ⟨hper, rfl, rfl, rfl, rfl, rfl, by simp [World.init]⟩
  have hs := World.reachable_starved hs₀ hw
  refine ⟨hs.pushed, hs.items, hs.returned, fun hq => ?_, fun out r h => ?_, fun data r h => ?_⟩
  · simp [ReplaySampler.getNextTimestep, ReplaySampler.takeTimestep,
      ReplaySampler.maybeSampleNext, ReplaySampler.popNextSample, Queue.pop,
      ReplaySampler.getNextSample, ReplaySampler.takeSample, hs.items, hs.active, hq]
  · obtain ⟨r₁, ht, -⟩ := ReplaySampler.getNextTimestep_ok h
    obtain ⟨⟨e, he⟩, -⟩ := ReplaySampler.takeTimestep_of_empty hs.items hs.active ht
    cases he
  · obtain ⟨r₁, ht, -⟩ := ReplaySampler.getNextSample_ok h
    obtain ⟨⟨e, he⟩, -⟩ := ReplaySampler.takeSample_of_empty hs.items ht
    cases he

/-- `max_samples_per_stream` = 0 の sampler。worker は 0 個を取り、何も頼まない stream を開いて
OK で戻り、また 0 個を取る。 -/
theorem nonpositive_perStream_starves_zero_run :
    let codec : Codec Unit Unit := ⟨fun _ => 0, fun _ => .stack [], fun t _ => t⟩
    let k : OptionDefaults := ⟨-1, -1, 4, 100⟩
    let w₀ : World Unit := World.init 1 0 1 [⟨"t", 1, by decide, false⟩]
    ReplaySampler.new k "t" ⟨1, 1, 1, 0⟩ = some w₀ ∧ w₀.sampler.maxSamplesPerStream ≤ 0 ∧
      ∃ w, World.Reachable codec w₀ w ∧ w.workers.map (·.pc) = [.reserved 0] ∧ w.finished = 0 ∧
        w.pushed = 0 ∧ w.sampler.samples.items = [] ∧ w.sampler.returned = 0 ∧
        (w.sampler.samples.closed = false →
          w.sampler.getNextTimestep = none ∧ w.sampler.getNextSample = none) ∧
        (∀ out r, w.sampler.getNextTimestep ≠ some (.ok out, r)) ∧
        (∀ data r, w.sampler.getNextSample ≠ some (.ok data, r)) := by
  intro codec k w₀
  have hnew : ReplaySampler.new k "t" ⟨1, 1, 1, 0⟩ = some w₀ := rfl
  have hrun : openStreamAndFetch codec ⟨"t", 1, by decide, false⟩ ⟨[], [], [], .okStatus⟩ 0
      = some ([], 0, .okStatus) := by
    unfold openStreamAndFetch
    rw [if_neg (by decide), requestLoop_done codec (by decide)]
    rfl
  obtain ⟨w, hw, hpc, hfin⟩ : ∃ w, World.Reachable codec w₀ w ∧
      w.workers.map (·.pc) = [.reserved 0] ∧ w.finished = 0 :=
    ⟨_, .step (.step (.step (.step .init (.reserve (i := 0) rfl rfl rfl))
      (.openStream (i := 0) _ rfl rfl hrun)) (.finish (i := 0) rfl rfl rfl))
      (.reserve (i := 0) rfl rfl rfl), rfl, rfl⟩
  exact ⟨hnew, le_rfl, w, hw, hpc, hfin, nonpositive_perStream_starves codec hnew le_rfl hw⟩

end Reverb
