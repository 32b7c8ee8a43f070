import Reverb.Properties.Progress

/-!
# 待つ `Pop` と worker の thread

`samples_` の `Pop` は、queue が開いていて空なら待つ。`Close` を呼ばないかぎり、待つ間に
queue を動かせるのは worker の thread だけなので、そのときどの worker も進めなければ、
呼び出しは戻らない。ここでは、そうなるのがいつかを言う。

1. `World.Live` — 届く状態の不変条件：queue の容量は正で、戻った worker がいれば
   `should_stop_workers()` は真で、`stream_status_` が失敗なら queue は閉じている。
   どの単位もこれを保つ（`World.step_live`）。
2. `World.worker_step` — `RunWorker` の位置ごとに、worker の thread が一歩進めること。
   `OpenStreamAndFetch` を呼ぶ前、stream の中（queue が開いていて空なら）、stream から戻った後は
   いつでも進める。進めないのは、`mu_.LockWhen(trigger)` で待つときと、戻った後だけである。
3. `World.emptyQueue_cases` — `Close` の前に利用者の thread が呼び出しの間にいて、queue が開いていて
   空なら、worker のどれかが進めるか、`max_samples_` 個のうち残りの一つが、`GetNextTimestep` の
   読みかけの sample であるかのどちらか。後者では、どの worker も `requested_ = max_samples_` を
   見て待ち、queue は閉じないので、`GetNextSample` の `Pop` は戻らない。
4. `getNextTimestep_no_deadlock` — 3 と `Reverb.Properties.Progress` から、`GetNextTimestep` が
   待つときには、いつも worker のどれかが進める。
-/

namespace Reverb

variable {P ε : Type}

namespace ReplaySampler

variable {r r' : ReplaySampler ε}

/-- `RunWorker` の最初の区間が何も取らずに戻るのは、`should_stop_workers()` が真のとき。 -/
theorem reserve_stop (h : r.reserve = some (none, r')) : r.shouldStopWorkers = true := by
  unfold reserve at h
  split at h
  · split at h
    · assumption
    · simp at h
  · cases h

/-- `should_stop_workers()` は、閉じる向きの変化で真のままである。`returned_` は
`max_samples_` を超えないので、`returned_ == max_samples_` も保たれる。 -/
theorem Later.shouldStopWorkers (h : Later r r') (hle : r'.returned ≤ r'.maxSamples)
    (hs : r.shouldStopWorkers = true) : r'.shouldStopWorkers = true := by
  simp only [ReplaySampler.shouldStopWorkers, Bool.or_eq_true, beq_iff_eq,
    Bool.not_eq_true'] at hs ⊢
  rcases hs with (hc | hr) | hf
  · exact .inl (.inl (h.closed hc))
  · have := h.returned
    have := h.maxSamples
    exact .inl (.inr (by omega))
  · exact .inr (by rw [h.streamStatus_eq hf]; exact hf)

/-- 利用者の thread の単位は、queue の容量と `stream_status_` に触らない。 -/
theorem takeTimestep_frame {result : Except Status (List (Tensor ε) × Bool)}
    (h : r.takeTimestep = some (result, r')) :
    r'.samples.capacity = r.samples.capacity ∧ r'.streamStatus = r.streamStatus := by
  rcases result with status | ⟨data, eos⟩
  · rw [takeTimestep_error h]
    exact ⟨rfl, rfl⟩
  · obtain ⟨status, r₁, a, a', hm, -, -, -, rfl⟩ := takeTimestep_ok h
    rcases maybeSampleNext_cases hm with rfl | ⟨-, -, -, s, rest, -, rfl⟩ <;> exact ⟨rfl, rfl⟩

theorem takeSample_frame {result : Except Status (List (Tensor ε))}
    (h : r.takeSample = some (result, r')) :
    r'.samples.capacity = r.samples.capacity ∧ r'.streamStatus = r.streamStatus := by
  rcases result with status | data
  · rw [takeSample_error h]
    exact ⟨rfl, rfl⟩
  · obtain ⟨-, s, rest, -, -, rfl⟩ := takeSample_ok h
    exact ⟨rfl, rfl⟩

end ReplaySampler

/-- 答えを何も持たない stream：最初の `Write` が false を返す。`num_samples` が負でなければ、
`OpenStreamAndFetch` は `CHECK` を落とさずに戻る。 -/
theorem openStreamAndFetch_noWrite (codec : Codec P ε) (w : Worker) {n : Int} (hn : 0 ≤ n) :
    ∃ trace count status,
      openStreamAndFetch codec w ⟨[], [], [], .okStatus⟩ n = some (trace, count, status) := by
  unfold openStreamAndFetch
  split
  · exact ⟨_, _, _, rfl⟩
  · rw [requestLoop]
    rcases lt_or_eq_of_le hn with hpos | rfl
    · simp [hpos]
    · simp

namespace World

/-- 待つ `Pop` を解く値の不変条件。 -/
structure Live (w : World ε) : Prop where
  capacity : 0 < w.sampler.samples.capacity
  stopped : ∀ t ∈ w.workers, t.pc = .stopped → w.sampler.shouldStopWorkers = true
  failed : w.sampler.streamStatus.ok = false → w.sampler.samples.closed = true

variable {m : Int} {w w' : World ε}

/-- 一歩で新しく戻った thread には理由があり、queue の容量は変わらず、`stream_status_` は
変わらないか、変わるなら queue が閉じている。 -/
theorem Live.of_later (hl : Live w) (hL : Later w w')
    (hret : w'.sampler.returned ≤ w'.sampler.maxSamples)
    (hcap : w'.sampler.samples.capacity = w.sampler.samples.capacity)
    (hstatus : w'.sampler.streamStatus = w.sampler.streamStatus ∨ w'.sampler.samples.closed = true)
    (hnew : ∀ t ∈ w'.workers, t.pc = .stopped →
      (∃ t₀ ∈ w.workers, t₀.pc = .stopped) ∨ w'.sampler.shouldStopWorkers = true) :
    Live w' where
  capacity := hcap ▸ hl.capacity
  stopped := fun t ht hpc => (hnew t ht hpc).elim
    (fun ⟨t₀, ht₀, hpc₀⟩ => hL.sampler.shouldStopWorkers hret (hl.stopped t₀ ht₀ hpc₀)) id
  failed := fun hf => hstatus.elim
    (fun hs => (hL.sampler.queue (hl.failed (hs ▸ hf))).1) id

/-- thread の並びの `i` 番目だけを変える単位では、新しく戻りうるのはその thread だけ。 -/
theorem stopped_set {ws : List (WorkerThread ε)} {i : Nat} {t x : WorkerThread ε}
    (hti : ws[i]? = some t) (ht : t.pc = x.pc ∨ x.pc ≠ .stopped) :
    ∀ y ∈ ws.set i x, y.pc = .stopped → ∃ t₀ ∈ ws, t₀.pc = .stopped := fun y hy hpc =>
  (List.mem_or_eq_of_mem_set hy).elim (fun h => ⟨y, h, hpc⟩) fun h => by
    subst h
    exact ht.elim (fun he => ⟨t, List.getElem?_mem hti, he.trans hpc⟩) (absurd hpc)

/-- **一歩**：どの thread のどの単位も `Live` を保つ。 -/
theorem step_live {codec : Codec P ε} (hi : Inv m w) (hl : Live w) (h : Step codec w w') :
    Live w' := by
  have hL := step_later hi h
  have hret : w'.sampler.returned ≤ w'.sampler.maxSamples := by
    have hi' := step_inv h hi
    have := hi'.returned_eq
    have := hi'.pushed_le
    have := hi'.requested_le
    have := hi'.maxSamples
    omega
  have hsame : ∀ {w'' : World ε}, w''.workers = w.workers → ∀ t ∈ w''.workers,
      t.pc = .stopped → (∃ t₀ ∈ w.workers, t₀.pc = .stopped) ∨ w''.sampler.shouldStopWorkers =
        true := fun he t ht hpc => .inl ⟨t, he ▸ ht, hpc⟩
  cases h with
  | reserve hti _ hres =>
    rcases ReplaySampler.reserve_cases hi.perStream hres with ⟨rfl, rfl⟩ | ⟨n, rfl, -, -, -, rfl⟩
    · exact hl.of_later hL hret rfl (.inl rfl) fun _ _ _ => .inr (ReplaySampler.reserve_stop hres)
    · exact hl.of_later hL hret rfl (.inl rfl) fun y hy hpc =>
        .inl (stopped_set hti (.inr (by simp)) y hy hpc)
  | openStream _ hti =>
    exact hl.of_later hL hret rfl (.inl rfl) fun y hy hpc =>
      .inl (stopped_set hti (.inr (by simp)) y hy hpc)
  | push hti _ hpush =>
    exact hl.of_later hL hret (by rw [Queue.push_true hpush]) (.inl rfl) fun y hy hpc =>
      .inl (stopped_set hti (.inr (by simp)) y hy hpc)
  | finish hti _ hfin =>
    rcases ReplaySampler.finishStream_cases hfin with ⟨rfl, -, hfail, -, rfl⟩ | ⟨rfl, rfl⟩
    · exact hl.of_later hL hret rfl (.inr rfl) fun _ _ _ =>
        .inr (by simp [ReplaySampler.shouldStopWorkers, hfail])
    · exact hl.of_later hL hret rfl (.inl rfl) fun y hy hpc =>
        .inl (stopped_set hti (.inr (by simp)) y hy hpc)
  | timestep _ ht =>
    obtain ⟨hcap, hs⟩ := ReplaySampler.takeTimestep_frame ht
    exact hl.of_later hL hret hcap (.inl hs) (hsame rfl)
  | sample _ ht =>
    obtain ⟨hcap, hs⟩ := ReplaySampler.takeSample_frame ht
    exact hl.of_later hL hret hcap (.inl hs) (hsame rfl)
  | count =>
    exact hl.of_later hL hret (by simp only [ReplaySampler.countReturned]; split <;> rfl)
      (.inl rfl) (hsame rfl)
  | close hm =>
    unfold ReplaySampler.markClosed at hm
    split at hm <;> obtain ⟨-, rfl⟩ := Prod.mk.inj hm <;>
      exact hl.of_later hL hret rfl (.inl rfl) (hsame rfl)
  | @cancel i t _ hti =>
    exact hl.of_later hL hret rfl (.inl rfl) fun y hy hpc =>
      .inl (stopped_set (x := { t with worker := t.worker.cancel }) hti (.inl rfl) y hy hpc)
  | closeQueue => exact hl.of_later hL hret rfl (.inl rfl) (hsame rfl)

/-- 単位を重ねても、thread の数は変わらない。 -/
theorem step_workers_length {codec : Codec P ε} (h : Step codec w w') :
    w'.workers.length = w.workers.length := by
  cases h <;> simp

section Run

variable {codec : Codec P ε} {maxSamples maxSamplesPerStream numWorkers : Int}
  {workers : List Worker}

/-- 届く状態は `Live` を満たし、thread の数は constructor が始めた数のまま。 -/
theorem reachable_live (hmax : 1 ≤ maxSamples) (hper : 1 ≤ maxSamplesPerStream)
    (hw : Reachable codec (init maxSamples maxSamplesPerStream numWorkers workers) w) :
    Live w ∧ w.workers.length = workers.length := by
  induction hw with
  | init =>
    refine ⟨⟨by simp [init, ReplaySampler.init], fun t ht hpc => ?_, by simp [init,
      ReplaySampler.init, Status.okStatus, Status.ok]⟩, by simp [init]⟩
    simp only [init, List.mem_map] at ht
    obtain ⟨_, _, rfl⟩ := ht
    cases hpc
  | step hw₁ hs ih =>
    exact ⟨step_live (reachable_inv hmax hper hw₁) ih.1 hs,
      (step_workers_length hs).trans ih.2⟩

end Run

/-! ## worker の thread が進めるとき -/

/-- 位置の変わる thread は、thread の並びを変える。 -/
theorem set_ne {ws : List (WorkerThread ε)} {i : Nat} {t : WorkerThread ε}
    (hti : ws[i]? = some t) {pc : WorkerPc ε} (hpc : pc ≠ t.pc) :
    ws.set i { t with pc } ≠ ws := fun h => by
  have hi : i < ws.length := (List.getElem?_eq_some_iff.1 hti).1
  have := congrArg (·[i]?) h
  simp only [List.getElem?_set_self hi, hti, Option.some.injEq] at this
  exact hpc (congrArg WorkerThread.pc this)

/-- `RunWorker` の位置ごとの一歩：待つ区間（`trigger` が偽）と戻った後を除けば、worker の thread は
進める。stream の中で queue に入れるには、queue が開いていて空きがあればよい。 -/
theorem worker_step (codec : Codec P ε) (hl : Live w) (hq : w.sampler.samples.closed = false)
    (hempty : w.sampler.samples.items = []) {i : Nat} {t : WorkerThread ε}
    (hti : w.workers[i]? = some t) (hv : t.pc.Valid)
    (hwait : t.pc = .waiting → w.sampler.reserve ≠ none) (hstop : t.pc ≠ .stopped) :
    ∃ w', Step codec w w' ∧ w'.consumer = w.consumer ∧ w'.workers ≠ w.workers := by
  cases hpc : t.pc with
  | waiting =>
    obtain ⟨⟨result, r⟩, hres⟩ := Option.ne_none_iff_exists'.1 (hwait hpc)
    exact ⟨_, .reserve hti hpc hres, rfl, set_ne hti (by rw [hpc]; cases result <;> simp)⟩
  | reserved n =>
    simp only [hpc, WorkerPc.Valid] at hv
    obtain ⟨trace, count, status, hrun⟩ := openStreamAndFetch_noWrite codec t.worker hv
    exact ⟨_, .openStream _ hti hpc hrun, rfl, set_ne hti (by rw [hpc]; simp)⟩
  | streaming n pushes result =>
    cases pushes with
    | nil =>
      exact ⟨_, .finish hti hpc rfl, rfl, set_ne hti (by rw [hpc]; split <;> simp)⟩
    | cons s pushes =>
      have hpush : w.sampler.samples.push s
          = some (true, { w.sampler.samples with items := [s] }) := by
        simp [Queue.push, hq, hempty, hl.capacity]
      exact ⟨_, .push hti hpc hpush, rfl, set_ne hti (by rw [hpc]; simp)⟩
  | stopped => exact absurd hpc hstop

/-- **queue が空のとき**：`Close` の前に利用者の thread が呼び出しの間にいて、queue が開いていて
空なら、worker のどれかが進めるか、どの worker も進めないかである。後者では、どの worker も
`trigger` が偽で待ち、`requested_ = max_samples_` で、`max_samples_` 個のうち残りの一つが、行の残った
今の sample であり、`GetNextSample` は待つ。 -/
theorem emptyQueue_cases {codec : Codec P ε} (hi : Inv m w) (hl : Live w) (hnw : w.workers ≠ [])
    (hclosed : w.sampler.closed = false) (hc : w.consumer = .idle)
    (hq : w.sampler.samples.closed = false) (hempty : w.sampler.samples.items = []) :
    (∃ w', Step codec w w' ∧ w'.consumer = w.consumer ∧ w'.workers ≠ w.workers) ∨
      (¬ ∃ w', Step codec w w' ∧ w'.consumer = w.consumer ∧ w'.workers ≠ w.workers) ∧
      (∀ t ∈ w.workers, t.pc = .waiting) ∧ w.sampler.reserve = none ∧
      w.sampler.requested = m ∧ w.sampler.returned + 1 = m ∧ w.sampler.activeCount = 1 ∧
      w.sampler.getNextSample = none := by
  have hret : w.sampler.returned ≠ m := fun h => by simp [hi.closed_of_returned h] at hq
  have hstop : w.sampler.shouldStopWorkers = false := by
    simp only [ReplaySampler.shouldStopWorkers, hclosed, Bool.false_or, Bool.or_eq_false_iff,
      beq_eq_false_iff_ne, ne_eq, Bool.not_eq_false']
    refine ⟨fun h => hret (h.trans hi.maxSamples), ?_⟩
    by_contra hf
    simp [hl.failed (by simpa using hf)] at hq
  by_cases hmove : ∃ w', Step codec w w' ∧ w'.consumer = w.consumer ∧ w'.workers ≠ w.workers
  · exact .inl hmove
  right
  -- どの worker も進めないなら、どれも `trigger` が偽で待っている
  have hwait : ∀ t ∈ w.workers, t.pc = .waiting ∧ w.sampler.reserve = none := fun t ht => by
    obtain ⟨i, hti⟩ := List.mem_iff_getElem?.1 ht
    by_contra hne
    refine hmove (worker_step codec hl hq hempty hti (hi.threads t ht) ?_ ?_)
    · exact fun hpc hres => hne ⟨hpc, hres⟩
    · intro hpc
      simp [hl.stopped t ht hpc] at hstop
  obtain ⟨t, ht⟩ := List.exists_mem_of_ne_nil _ hnw
  have hreq : m ≤ w.sampler.requested := by
    have hres := (hwait t ht).2
    simp only [ReplaySampler.reserve, hstop, Bool.false_or, decide_eq_true_eq] at hres
    split at hres
    · simp at hres
    · have := hi.maxSamples
      omega
  have hsum : ∀ f : WorkerPc ε → Int, f .waiting = 0 → (w.workers.map (f ·.pc)).sum = 0 :=
    fun f hf => List.sum_eq_zero fun x hx => by
      obtain ⟨t, ht, rfl⟩ := List.mem_map.1 hx
      rw [(hwait t ht).1, hf]
  have h1 := hsum _ WorkerPc.reservation_waiting
  have h2 := hsum _ WorkerPc.inFlight_waiting
  have hreq_eq := hi.requested_eq
  have hpushed_eq := hi.pushed_eq
  have hret_eq := hi.returned_eq
  have hle := hi.requested_le
  have hact : w.sampler.activeCount ≤ 1 := by
    unfold ReplaySampler.activeCount
    split <;> omega
  simp only [pendingCount, hc, hempty, List.length_nil] at hret_eq
  simp only [h1, h2] at hreq_eq hpushed_eq
  push_cast at hret_eq
  refine ⟨hmove, fun t ht => (hwait t ht).1, (hwait t ht).2, by omega, by omega, by omega, ?_⟩
  simp [ReplaySampler.getNextSample, ReplaySampler.takeSample, ReplaySampler.popNextSample,
    Queue.pop, hq, hempty]

end World

/-- **`GetNextTimestep` は行き詰まらない**：stream が行を取り出せる sample だけを入れる走りでは、
`Close` の前に `GetNextTimestep` が待つとき、worker の thread のどれかが一歩進める。 -/
theorem getNextTimestep_no_deadlock (codec : Codec P ε)
    {maxSamples maxSamplesPerStream numWorkers : Int} {workers : List Worker}
    (hmax : 1 ≤ maxSamples) (hper : 1 ≤ maxSamplesPerStream) (hnw : workers ≠ []) {w : World ε}
    (hw : World.ReadyReachable codec
      (World.init maxSamples maxSamplesPerStream numWorkers workers) w)
    (hclosed : w.sampler.closed = false) (hc : w.consumer = .idle)
    (hblock : w.sampler.getNextTimestep = none) :
    ∃ w', World.Step codec w w' ∧ w'.consumer = w.consumer ∧ w'.workers ≠ w.workers := by
  have hr := hw.reachable
  obtain ⟨hq, hempty, hact⟩ := (ReplaySampler.getNextTimestep_eq_none
    (World.readyReachable_ready hw).1 (World.reachable_cause hmax hper hr).1).1 hblock
  obtain ⟨hl, hlen⟩ := World.reachable_live hmax hper hr
  refine (World.emptyQueue_cases (World.reachable_inv hmax hper hr) hl
    (List.ne_nil_of_length_pos (hlen ▸ List.length_pos.2 hnw)) hclosed hc hq hempty).resolve_right
    fun h => by omega

/-- `max_samples_` = 2 で、worker が一行の sample を一つ入れて戻り、利用者が `GetNextTimestep` で
それを受け取って数えた後。今の sample は使い切られ、queue は開いていて空なので `GetNextTimestep` は
待つが、worker は `requested_ < max_samples_` を見て次の区間へ進める。 -/
theorem getNextTimestep_no_deadlock_after_count :
    let codec : Codec Unit Unit := ⟨fun _ => 1, fun _ => .stack [.scalar (.elem ())], fun t _ => t⟩
    let worker : Worker := ⟨"", 1, by decide, false⟩
    let w₀ : World Unit := World.init 2 1 1 [worker]
    (1 : Int) ≤ 2 ∧ (1 : Int) ≤ 1 ∧ [worker] ≠ [] ∧ ∃ w, World.ReadyReachable codec w₀ w ∧
      w.sampler.returned = 1 ∧ w.sampler.closed = false ∧ w.consumer = .idle ∧
      w.sampler.getNextTimestep = none ∧
      ∃ w', World.Step codec w w' ∧ w'.consumer = w.consumer ∧ w'.workers ≠ w.workers := by
  intro codec worker w₀
  obtain ⟨w, hw, hret, hclosed, hc, hblock⟩ : ∃ w, World.ReadyReachable codec w₀ w ∧
      w.sampler.returned = 1 ∧ w.sampler.closed = false ∧ w.consumer = .idle ∧
      w.sampler.getNextTimestep = none :=
    ⟨_, .step (.step (.step (.step (.step (.step .init (.reserve (i := 0) rfl rfl rfl)
      (World.pushes_ready [[]] rfl (by simp))) (.openStream (i := 0) _ rfl rfl
        openStreamAndFetch_oneRow) (World.pushes_ready [[_]] rfl
          (by simpa using Sample.ready_oneRow 0))) (.push (i := 0) rfl rfl rfl)
      (World.pushes_ready [[]] rfl (by simp))) (.finish (i := 0) rfl rfl rfl)
      (World.pushes_ready [[]] rfl (by simp))) (.timestep rfl rfl)
      (World.pushes_ready [[]] rfl (by simp))) (.count rfl) (World.pushes_ready [[]] rfl (by simp)),
      rfl, rfl, rfl, rfl⟩
  exact ⟨by decide, le_rfl, by simp, w, hw, hret, hclosed, hc, hblock,
    getNextTimestep_no_deadlock codec (by decide) le_rfl (by simp) hw hclosed hc hblock⟩

end Reverb
