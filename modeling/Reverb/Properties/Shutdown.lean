import Reverb.Properties.System

/-!
# 閉じた後

`Close`、queue の `Close`、stream の失敗は、どれも元に戻らない。thread がどの順に進んでも、
次が成り立つ。

1. `ReplaySampler.Later` — 閉じる向きにしか動かない値が、二つの状態の間で動いた向き。
   どの単位もこれを満たし（`World.step_later`）、単位を重ねても満たす（`World.reachable_later`）。
2. `Close` の後、`closed_` は立ったままで `requested_` は増えず、worker は次の区間で戻る。
3. queue が閉じた後、queue には何も入らず、何も出ない。
4. `stream_status_` は一度だけ、OK から `UNAVAILABLE` でない失敗に変わる。
5. queue が閉じているのは、`max_samples_` を返したか、`Close` されたか、stream が失敗したときで
   ある。だから `MaybeSampleNext` と `PopNextSample` が OK を返せば sample がある。
   `GetNextTimestep` と `GetNextSample` は null を参照しない。
6. `max_samples_` を返した後の呼び出しは、待たずに `OUT_OF_RANGE` を返す。
-/

namespace Reverb

variable {P ε : Type}

namespace ReplaySampler

/-- `r` から `r'` までに、閉じる向きにしか動かない値が動いた向き。 -/
structure Later (r r' : ReplaySampler ε) : Prop where
  maxSamples : r'.maxSamples = r.maxSamples
  returned : r.returned ≤ r'.returned
  closed : r.closed = true → r'.closed = true
  requested : r.closed = true → r'.requested ≤ r.requested
  queue : r.samples.closed = true →
    r'.samples.closed = true ∧ r'.samples.items = r.samples.items
  /-- `stream_status_` は、変わるなら OK から `UNAVAILABLE` でない失敗に変わる。 -/
  streamStatus : r'.streamStatus ≠ r.streamStatus →
    r.streamStatus.ok = true ∧ r'.streamStatus.ok = false ∧ r'.streamStatus.code ≠ .unavailable
  /-- 閉じた queue には理由がある。 -/
  cause : r'.samples.closed = true → r.samples.closed = true ∨ r'.maxSamples ≤ r'.returned ∨
    r'.closed = true ∨ r'.streamStatus.ok = false

namespace Later

variable {r r₁ r₂ : ReplaySampler ε}

/-- 閉じる向きの値に触らない変更。 -/
theorem of_fields (hmax : r₁.maxSamples = r.maxSamples) (hret : r₁.returned = r.returned)
    (hclosed : r.closed = true → r₁.closed = true)
    (hreq : r.closed = true → r₁.requested ≤ r.requested)
    (hq : r₁.samples.closed = r.samples.closed)
    (hitems : r.samples.closed = true → r₁.samples.items = r.samples.items)
    (hs : r₁.streamStatus = r.streamStatus) : Later r r₁ where
  maxSamples := hmax
  returned := hret.ge
  closed := hclosed
  requested := hreq
  queue := fun h => ⟨hq ▸ h, hitems h⟩
  streamStatus := fun h => absurd hs h
  cause := fun h => .inl (hq ▸ h)

theorem refl (r : ReplaySampler ε) : Later r r :=
  of_fields rfl rfl id (fun _ => le_rfl) rfl (fun _ => rfl) rfl

/-- 失敗を覚えた `stream_status_` は、もう変わらない。 -/
theorem streamStatus_eq (h : Later r r₁) (hfail : r.streamStatus.ok = false) :
    r₁.streamStatus = r.streamStatus := by
  by_contra hne
  simp [(h.streamStatus hne).1] at hfail

theorem trans (h₁ : Later r r₁) (h₂ : Later r₁ r₂) : Later r r₂ where
  maxSamples := h₂.maxSamples.trans h₁.maxSamples
  returned := h₁.returned.trans h₂.returned
  closed := h₂.closed ∘ h₁.closed
  requested := fun h => (h₂.requested (h₁.closed h)).trans (h₁.requested h)
  queue := fun h =>
    have h₁q := h₁.queue h
    have h₂q := h₂.queue h₁q.1
    ⟨h₂q.1, h₂q.2.trans h₁q.2⟩
  streamStatus := fun hne => by
    by_cases h : r₁.streamStatus = r.streamStatus
    · rw [← h]
      exact h₂.streamStatus fun he => hne (he.trans h)
    · have hs := h₁.streamStatus h
      rw [h₂.streamStatus_eq hs.2.1]
      exact hs
  cause := fun h => by
    rcases h₂.cause h with h | h
    · rcases h₁.cause h with h | h | h | h
      · exact .inl h
      · exact .inr (.inl (by rw [h₂.maxSamples]; exact h.trans h₂.returned))
      · exact .inr (.inr (.inl (h₂.closed h)))
      · exact .inr (.inr (.inr (by rw [h₂.streamStatus_eq h]; exact h)))
    · exact .inr h

end Later

/-! ## 一つの区間 -/

variable {r r' : ReplaySampler ε}

theorem reserve_later {result : Option Int} (hper : 1 ≤ r.maxSamplesPerStream)
    (h : r.reserve = some (result, r')) : Later r r' := by
  rcases reserve_cases hper h with ⟨-, rfl⟩ | ⟨n, -, hstop, -, -, rfl⟩
  · exact .refl _
  · have hc : r.closed = false := by
      simp only [shouldStopWorkers, Bool.or_eq_false_iff] at hstop
      exact hstop.1.1
    exact .of_fields rfl rfl id (by simp [hc]) rfl (fun _ => rfl) rfl

theorem finishStream_later {n : Int} {result : Int × Status} {stop : Bool} (hle : result.1 ≤ n)
    (h : r.finishStream n result = (stop, r')) : Later r r' := by
  rcases finishStream_cases h with ⟨-, hok, hfail, hcode, rfl⟩ | ⟨-, rfl⟩
  · exact ⟨rfl, le_rfl, id, fun _ => by dsimp only; omega, fun _ => ⟨rfl, rfl⟩,
      fun _ => ⟨hok, hfail, hcode⟩, fun _ => .inr (.inr (.inr hfail))⟩
  · exact .of_fields rfl rfl id (fun _ => by dsimp only; omega) rfl (fun _ => rfl) rfl

theorem push_later {q : Queue (Sample ε)} {s : Sample ε} (h : r.samples.push s = some (true, q)) :
    Later r { r with samples := q } := by
  have hopen := Queue.closed_of_push_true h
  rw [Queue.push_true h]
  exact .of_fields rfl rfl id (fun _ => le_rfl) rfl (by simp [hopen]) rfl

theorem takeTimestep_later {result : Except Status (List (Tensor ε) × Bool)}
    (h : r.takeTimestep = some (result, r')) : Later r r' := by
  rcases result with status | ⟨data, eos⟩
  · rw [takeTimestep_error h]
    exact .refl r
  · obtain ⟨status, r₁, a, a', hm, -, -, -, rfl⟩ := takeTimestep_ok h
    rcases maybeSampleNext_cases hm with rfl | ⟨-, hopen, -, s, rest, -, rfl⟩
    · exact .of_fields rfl rfl id (fun _ => le_rfl) rfl (fun _ => rfl) rfl
    · exact .of_fields rfl rfl id (fun _ => le_rfl) rfl (by simp [hopen]) rfl

theorem takeSample_later {result : Except Status (List (Tensor ε))}
    (h : r.takeSample = some (result, r')) : Later r r' := by
  rcases result with status | data
  · rw [takeSample_error h]
    exact .refl r
  · obtain ⟨hopen, s, rest, -, -, rfl⟩ := takeSample_ok h
    exact .of_fields rfl rfl id (fun _ => le_rfl) rfl (by simp [hopen]) rfl

theorem countReturned_later (r : ReplaySampler ε) : Later r r.countReturned where
  maxSamples := rfl
  returned := by simp
  closed := id
  requested := fun _ => le_rfl
  queue := fun h => ⟨by simp only [countReturned]; split <;> simp [Queue.close, h],
    countReturned_items r⟩
  streamStatus := fun h => absurd rfl h
  cause := fun h => by
    simp only [countReturned] at h ⊢
    split at h
    · exact .inr (.inl (by omega))
    · exact .inl h

theorem markClosed_later {b : Bool} (h : r.markClosed = (b, r')) : Later r r' := by
  unfold markClosed at h
  split at h <;> obtain ⟨-, rfl⟩ := Prod.mk.inj h
  · exact .refl r
  · exact .of_fields rfl rfl (fun _ => rfl) (fun _ => le_rfl) rfl (fun _ => rfl) rfl

theorem closeQueue_later (h : r.closed = true) : Later r { r with samples := r.samples.close } :=
  ⟨rfl, le_rfl, id, fun _ => le_rfl, fun _ => ⟨rfl, rfl⟩, fun h => absurd rfl h,
    fun _ => .inr (.inr (.inl h))⟩

/-! ## 閉じた queue の呼び出し -/

/-- 閉じた queue に理由があれば、OK を返した `PopNextSample` は sample を取り出している。 -/
theorem popNextSample_ok {status : Status} {sample : Option (Sample ε)}
    (hcause : r.samples.closed = true →
      r.returned = r.maxSamples ∨ r.closed = true ∨ r.streamStatus.ok = false)
    (h : r.popNextSample = some (status, sample, r')) (hok : status.ok = true) :
    ∃ s, sample = some s := by
  cases sample with
  | some s => exact ⟨s, rfl⟩
  | none =>
    have hclosed := (popNextSample_none h).2
    rw [popNextSample_closed hclosed] at h
    obtain ⟨rfl, -⟩ := Prod.mk.inj (Option.some.inj h)
    rcases hcause hclosed with hc | hc | hc <;> split_ifs at hok <;> simp_all [Status.ok]

/-- 同じ条件で、OK を返した `MaybeSampleNext` の後には今の sample がある。 -/
theorem maybeSampleNext_ok {status : Status}
    (hcause : r.samples.closed = true →
      r.returned = r.maxSamples ∨ r.closed = true ∨ r.streamStatus.ok = false)
    (h : r.maybeSampleNext = some (status, r')) (hok : status.ok = true) :
    ∃ s, r'.activeSample = some s := by
  unfold maybeSampleNext at h
  split at h
  · rename_i hact
    rw [← (Prod.mk.inj (Option.some.inj h)).2]
    cases ha : r.activeSample with
    | none => simp [ha] at hact
    | some s => exact ⟨s, rfl⟩
  · obtain ⟨⟨status', sample, r₁⟩, hpop, h⟩ := Option.map_eq_some'.1 h
    cases sample with
    | some s => exact ⟨s, by rw [← (Prod.mk.inj h).2]⟩
    | none =>
      obtain ⟨rfl, -⟩ := Prod.mk.inj h
      simpa using popNextSample_ok hcause hpop hok

/-- 今の sample に行が残っていなければ、閉じた queue の理由が、そのまま二つの呼び出しの答えになる。 -/
theorem getNext_of_closed {status : Status} (hact : r.activeCount = 0)
    (hpop : r.popNextSample = some (status, none, r)) (hfail : status.ok = false) :
    r.getNextTimestep = some (.error status, r) ∧ r.getNextSample = some (.error status, r) := by
  have hany : (r.activeSample.any fun s => !s.isEndOfSample) = false := by
    simpa [activeCount] using hact
  simp only [getNextTimestep, takeTimestep, maybeSampleNext, hany, Bool.false_eq_true, if_false,
    if_true, hpop, Option.map_some', Bool.not_eq_eq_eq_not, Bool.not_true, Option.pure_def,
    Option.bind_eq_bind, Option.some_bind, hfail, getNextSample, takeSample, and_self]

end ReplaySampler

namespace World

theorem Reachable.trans {codec : Codec P ε} {w₀ w w' : World ε} (hw : Reachable codec w₀ w)
    (hw' : Reachable codec w w') : Reachable codec w₀ w' := by
  induction hw' with
  | init => exact hw
  | step _ hs ih => exact .step ih hs

/-- 単位を重ねても保たれる向き。queue が閉じた後は、queue に入った数も変わらない。 -/
structure Later (w w' : World ε) : Prop where
  sampler : w.sampler.Later w'.sampler
  pushed : w.sampler.samples.closed = true → w'.pushed = w.pushed

theorem Later.trans {w w₁ w₂ : World ε} (h₁ : Later w w₁) (h₂ : Later w₁ w₂) : Later w w₂ :=
  ⟨h₁.sampler.trans h₂.sampler, fun h =>
    (h₂.pushed (h₁.sampler.queue h).1).trans (h₁.pushed h)⟩

variable {m : Int}

/-- **一歩**：どの thread のどの単位も、閉じる向きにしか値を動かさない。 -/
theorem step_later {codec : Codec P ε} {w w' : World ε} (hi : Inv m w) (h : Step codec w w') :
    Later w w' := by
  cases h with
  | reserve _ _ hres => exact ⟨ReplaySampler.reserve_later hi.perStream hres, fun _ => rfl⟩
  | openStream => exact ⟨.refl _, fun _ => rfl⟩
  | push _ _ hpush =>
    exact ⟨ReplaySampler.push_later hpush, fun h => by
      simp [Queue.closed_of_push_true hpush] at h⟩
  | @finish i t n result stop r hti hpc hfin =>
    have hv := hi.threads t (List.getElem?_mem hti)
    simp only [hpc, WorkerPc.Valid] at hv
    exact ⟨ReplaySampler.finishStream_later hv.2 hfin, fun _ => rfl⟩
  | timestep _ ht => exact ⟨ReplaySampler.takeTimestep_later ht, fun _ => rfl⟩
  | sample _ ht => exact ⟨ReplaySampler.takeSample_later ht, fun _ => rfl⟩
  | count => exact ⟨ReplaySampler.countReturned_later _, fun _ => rfl⟩
  | close hm => exact ⟨ReplaySampler.markClosed_later hm, fun _ => rfl⟩
  | cancel => exact ⟨.refl _, fun _ => rfl⟩
  | closeQueue hcl => exact ⟨ReplaySampler.closeQueue_later hcl, fun _ => rfl⟩

section Run

variable {codec : Codec P ε} {maxSamples maxSamplesPerStream numWorkers : Int}
  {workers : List Worker} (hmax : 1 ≤ maxSamples) (hper : 1 ≤ maxSamplesPerStream)

include hmax hper

/-- **走り**：届く状態から先の走りは、閉じる向きにしか値を動かさない。 -/
theorem reachable_later {w w' : World ε}
    (hw : Reachable codec (init maxSamples maxSamplesPerStream numWorkers workers) w)
    (hw' : Reachable codec w w') : Later w w' := by
  induction hw' with
  | init => exact ⟨.refl _, fun _ => rfl⟩
  | step hw₁ hs ih => exact ih.trans (step_later (reachable_inv hmax hper (hw.trans hw₁)) hs)

/-- 届く状態では、閉じた queue に理由があり、`stream_status_` は OK か `UNAVAILABLE` でない失敗。 -/
theorem reachable_cause {w : World ε}
    (hw : Reachable codec (init maxSamples maxSamplesPerStream numWorkers workers) w) :
    (w.sampler.samples.closed = true → w.sampler.returned = w.sampler.maxSamples ∨
      w.sampler.closed = true ∨ w.sampler.streamStatus.ok = false) ∧
    (w.sampler.streamStatus.ok = true ∨ w.sampler.streamStatus.code ≠ .unavailable) := by
  have hl := (reachable_later hmax hper .init hw).sampler
  have hi := reachable_inv hmax hper hw
  refine ⟨fun h => ?_, ?_⟩
  · rcases hl.cause h with h | h | h
    · simp [init, ReplaySampler.init] at h
    · have := hi.returned_eq
      have := hi.pushed_le
      have := hi.requested_le
      exact .inl (by rw [hi.maxSamples] at h ⊢; omega)
    · exact .inr h
  · by_cases h : w.sampler.streamStatus = Status.okStatus
    · simp [h]
    · exact .inr (hl.streamStatus h).2.2

end Run

end World

/-- **`Close` の後**：`closed_` は立ったままで `requested_` は増えず、`RunWorker` の最初の区間に
来た worker は何も取らずに戻る。 -/
theorem close_stops_requests (codec : Codec P ε) {maxSamples maxSamplesPerStream numWorkers : Int}
    {workers : List Worker} (hmax : 1 ≤ maxSamples) (hper : 1 ≤ maxSamplesPerStream)
    {w w' : World ε}
    (hw : World.Reachable codec (World.init maxSamples maxSamplesPerStream numWorkers workers) w)
    (hw' : World.Reachable codec w w') (hc : w.sampler.closed = true) :
    w'.sampler.closed = true ∧ w'.sampler.requested ≤ w.sampler.requested ∧
      w'.sampler.reserve = some (none, w'.sampler) := by
  have hl := (World.reachable_later hmax hper hw hw').sampler
  have hc' := hl.closed hc
  exact ⟨hc', hl.requested hc,
    by simp [ReplaySampler.reserve, ReplaySampler.shouldStopWorkers, hc']⟩

/-- 二つの worker のうち一つが二つ目の区間の前にいるとき、`Close` の区間が走る。その後に
`RunWorker` の最初の区間に来たもう一つの worker は何も取らずに戻り、`Cancel` された stream は何も
入れずに戻って、取った分を `requested_` から返す。 -/
theorem close_stops_requests_run :
    let codec : Codec Unit Unit := ⟨fun _ => 0, fun _ => .stack [], fun t _ => t⟩
    let worker : Worker := ⟨"", 1, by decide, false⟩
    let w₀ : World Unit := World.init 2 1 2 [worker, worker]
    (1 : Int) ≤ 2 ∧ (1 : Int) ≤ 1 ∧ ∃ w w', World.Reachable codec w₀ w ∧
      World.Reachable codec w w' ∧ w.sampler.closed = true ∧ w.sampler.requested = 1 ∧
      w'.sampler.requested = 0 ∧ w'.workers.map (·.pc) = [.stopped, .stopped] ∧
      w'.sampler.closed = true ∧ w'.sampler.requested ≤ w.sampler.requested ∧
      w'.sampler.reserve = some (none, w'.sampler) := by
  intro codec worker w₀
  obtain ⟨w, w', hw, hw', hc, h1, h2, h3⟩ : ∃ w w', World.Reachable codec w₀ w ∧
      World.Reachable codec w w' ∧
      w.sampler.closed = true ∧ w.sampler.requested = 1 ∧ w'.sampler.requested = 0 ∧
      w'.workers.map (·.pc) = [.stopped, .stopped] :=
    ⟨_, _, .step (.step .init (.reserve (i := 0) rfl rfl rfl)) (.close rfl),
      .step (.step (.step (.step .init (.reserve (i := 1) rfl rfl rfl)) (.cancel (i := 0) rfl rfl))
        (.openStream (i := 0) ⟨[], [], [], .okStatus⟩ rfl rfl rfl)) (.finish (i := 0) rfl rfl rfl),
      rfl, rfl, rfl, rfl⟩
  exact ⟨by decide, le_rfl, w, w', hw, hw', hc, h1, h2, h3,
    close_stops_requests codec (by decide) le_rfl hw hw' hc⟩

/-- **stream の失敗**：`stream_status_` は OK か `UNAVAILABLE` でない失敗で、失敗を覚えた後は
変わらない。最初の失敗が残る。 -/
theorem streamStatus_first_error (codec : Codec P ε)
    {maxSamples maxSamplesPerStream numWorkers : Int} {workers : List Worker}
    (hmax : 1 ≤ maxSamples) (hper : 1 ≤ maxSamplesPerStream) {w w' : World ε}
    (hw : World.Reachable codec (World.init maxSamples maxSamplesPerStream numWorkers workers) w)
    (hw' : World.Reachable codec w w') :
    (w.sampler.streamStatus.ok = true ∨ w.sampler.streamStatus.code ≠ .unavailable) ∧
      (w.sampler.streamStatus.ok = false → w'.sampler.streamStatus = w.sampler.streamStatus) :=
  ⟨(World.reachable_cause hmax hper hw).2,
    (World.reachable_later hmax hper hw hw').sampler.streamStatus_eq⟩

/-- 二つの worker の stream が、それぞれ `INTERNAL` と `DATA_LOSS` で終わる。先に戻った worker の
`INTERNAL` が `stream_status_` に残り、後の `DATA_LOSS` はそれを変えない。 -/
theorem streamStatus_first_error_run :
    let codec : Codec Unit Unit := ⟨fun _ => 0, fun _ => .stack [], fun t _ => t⟩
    let worker : Worker := ⟨"", 1, by decide, false⟩
    let w₀ : World Unit := World.init 2 1 2 [worker, worker]
    (1 : Int) ≤ 2 ∧ (1 : Int) ≤ 1 ∧ ∃ w w', World.Reachable codec w₀ w ∧
      World.Reachable codec w w' ∧ w.sampler.streamStatus = ⟨.internal, ""⟩ ∧
      w'.workers.map (·.pc) = [.stopped, .waiting] ∧
      (w.sampler.streamStatus.ok = true ∨ w.sampler.streamStatus.code ≠ .unavailable) ∧
      (w.sampler.streamStatus.ok = false → w'.sampler.streamStatus = w.sampler.streamStatus) := by
  intro codec worker w₀
  obtain ⟨w, w', hw, hw', hst, hwait⟩ : ∃ w w', World.Reachable codec w₀ w ∧
      World.Reachable codec w w' ∧ w.sampler.streamStatus = ⟨.internal, ""⟩ ∧
      w'.workers.map (·.pc) = [.stopped, .waiting] :=
    ⟨_, _, .step (.step (.step (.step (.step .init (.reserve (i := 0) rfl rfl rfl))
      (.reserve (i := 1) rfl rfl rfl))
      (.openStream (i := 0) ⟨[], [], [], ⟨.internal, ""⟩⟩ rfl rfl
        (openStreamAndFetch_writeFails codec rfl (by decide) (by decide))))
      (.openStream (i := 1) ⟨[], [], [], ⟨.dataLoss, ""⟩⟩ rfl rfl
        (openStreamAndFetch_writeFails codec rfl (by decide) (by decide))))
      (.finish (i := 0) rfl rfl rfl), .step .init (.finish (i := 1) rfl rfl rfl), rfl, rfl⟩
  exact ⟨by decide, le_rfl, w, w', hw, hw', hst, hwait,
    streamStatus_first_error codec (by decide) le_rfl hw hw'⟩

/-- **null を参照しない**：届く状態では、`MaybeSampleNext` が OK を返せば今の sample があり、
`PopNextSample` が OK を返せば sample を取り出している。 -/
theorem getNext_no_null (codec : Codec P ε) {maxSamples maxSamplesPerStream numWorkers : Int}
    {workers : List Worker} (hmax : 1 ≤ maxSamples) (hper : 1 ≤ maxSamplesPerStream)
    {w : World ε}
    (hw : World.Reachable codec (World.init maxSamples maxSamplesPerStream numWorkers workers) w) :
    (∀ {status r}, w.sampler.maybeSampleNext = some (status, r) → status.ok = true →
      ∃ s, r.activeSample = some s) ∧
    (∀ {status sample r}, w.sampler.popNextSample = some (status, sample, r) → status.ok = true →
      ∃ s, sample = some s) :=
  have hcause := (World.reachable_cause hmax hper hw).1
  ⟨ReplaySampler.maybeSampleNext_ok hcause, ReplaySampler.popNextSample_ok hcause⟩

/-- worker が一つの sample を入れた後。`MaybeSampleNext` も `PopNextSample` も OK を返し、どちらも
その sample を持つ。 -/
theorem getNext_no_null_one_push :
    let codec : Codec Unit Unit := ⟨fun _ => 1, fun _ => .stack [.scalar (.elem ())], fun t _ => t⟩
    let w₀ : World Unit := World.init 2 1 1 [⟨"", 1, by decide, false⟩]
    (1 : Int) ≤ 2 ∧ (1 : Int) ≤ 1 ∧ ∃ w, World.Reachable codec w₀ w ∧
      (∃ r, w.sampler.maybeSampleNext = some (.okStatus, r)) ∧
      (∃ sample r, w.sampler.popNextSample = some (.okStatus, sample, r)) ∧
      (∀ {status r}, w.sampler.maybeSampleNext = some (status, r) → status.ok = true →
        ∃ s, r.activeSample = some s) ∧
      (∀ {status sample r}, w.sampler.popNextSample = some (status, sample, r) →
        status.ok = true → ∃ s, sample = some s) := by
  intro codec w₀
  have hw : World.Reachable codec w₀ _ :=
    .step (.step (.step .init (.reserve (i := 0) rfl rfl rfl))
      (.openStream (i := 0) _ rfl rfl openStreamAndFetch_oneRow)) (.push (i := 0) rfl rfl rfl)
  exact ⟨by decide, le_rfl, _, hw, ⟨_, rfl⟩, ⟨_, _, rfl⟩,
    getNext_no_null codec (by decide) le_rfl hw⟩

/-- **`max_samples_` の後**：`max_samples_` 個を返した後の `GetNextTimestep` と `GetNextSample` は、
待たずに `OUT_OF_RANGE` を返し、状態を変えない。 -/
theorem outOfRange_after_max (codec : Codec P ε) {maxSamples maxSamplesPerStream numWorkers : Int}
    {workers : List Worker} (hmax : 1 ≤ maxSamples) (hper : 1 ≤ maxSamplesPerStream)
    {w : World ε}
    (hw : World.Reachable codec (World.init maxSamples maxSamplesPerStream numWorkers workers) w)
    (hret : w.sampler.returned = w.sampler.maxSamples) :
    w.sampler.getNextTimestep =
        some (.error ⟨.outOfRange, "`max_samples` already returned."⟩, w.sampler) ∧
      w.sampler.getNextSample =
        some (.error ⟨.outOfRange, "`max_samples` already returned."⟩, w.sampler) := by
  have hi := World.reachable_inv hmax hper hw
  have hclosed := hi.closed_of_returned (hret.trans hi.maxSamples)
  have hact : w.sampler.activeCount = 0 := by
    have heq := hi.returned_eq
    have hle := hi.pushed_le
    have hreq := hi.requested_le
    have hm := hi.maxSamples
    simp only [World.pendingCount] at heq
    omega
  have hpop := ReplaySampler.popNextSample_closed hclosed
  rw [if_pos hret] at hpop
  exact ReplaySampler.getNext_of_closed hact hpop rfl

/-- worker が一つの sample を入れ、利用者が `GetNextSample` でそれを受け取ると、`max_samples_` = 1 に
届く。 -/
theorem outOfRange_after_max_one_sample :
    let codec : Codec Unit Unit := ⟨fun _ => 1, fun _ => .stack [.scalar (.elem ())], fun t _ => t⟩
    let w₀ : World Unit := World.init 1 1 1 [⟨"", 1, by decide, false⟩]
    (1 : Int) ≤ 1 ∧ (1 : Int) ≤ 1 ∧ ∃ w, World.Reachable codec w₀ w ∧
      w.sampler.returned = w.sampler.maxSamples ∧
      w.sampler.getNextTimestep =
        some (.error ⟨.outOfRange, "`max_samples` already returned."⟩, w.sampler) ∧
      w.sampler.getNextSample =
        some (.error ⟨.outOfRange, "`max_samples` already returned."⟩, w.sampler) := by
  intro codec w₀
  let r₀ : SampleStreamResponse Unit := ⟨⟨⟨0, ⟨0, 1⟩⟩, 1, 1⟩, ⟨[()], false⟩⟩
  obtain ⟨s, hs, hb⟩ : ∃ s, fetchLoop codec 1 ⟨⟨[], [r₀], [true], .okStatus⟩, [.write ⟨"", 1⟩], 0⟩
      = some (⟨⟨[], [], [], .okStatus⟩, [.write ⟨"", 1⟩, .push s], 1⟩, none) ∧
      s.asBatchedTimesteps.isSome := ⟨_, rfl, rfl⟩
  have hrun : openStreamAndFetch codec ⟨"", 1, by decide, false⟩ ⟨[true], [r₀], [true], .okStatus⟩ 1
      = some ([.write ⟨"", 1⟩, .push s], 1, .okStatus) := by
    unfold openStreamAndFetch
    rw [if_neg (by decide), requestLoop, if_pos (by decide)]
    dsimp only
    split <;> rename_i heq <;> cases heq.symm.trans hs
    rw [requestLoop, if_neg (lt_irrefl (1 : Int))]
    rfl
  obtain ⟨data, hdata⟩ := Option.isSome_iff_exists.1 hb
  obtain ⟨w, hw, hsamp, hc⟩ : ∃ w, World.Reachable codec w₀ w ∧
      w.sampler = { ReplaySampler.init 1 1 1 with requested := 1, samples := ⟨[s], 1, false⟩ } ∧
      w.consumer = .idle :=
    ⟨_, .step (.step (.step .init (.reserve (i := 0) rfl rfl rfl))
      (.openStream (i := 0) _ rfl rfl hrun)) (.push (i := 0) rfl rfl rfl), rfl, rfl⟩
  have ht : w.sampler.takeSample = some (.ok data,
      { ReplaySampler.init 1 1 1 with requested := 1, samples := ⟨[], 1, false⟩ }) := by
    simp [hsamp, ReplaySampler.takeSample, ReplaySampler.popNextSample, Queue.pop, hdata]
  have hw' := (hw.step (.sample hc ht)).step (.count rfl)
  exact ⟨le_rfl, le_rfl, _, hw', rfl, outOfRange_after_max codec le_rfl le_rfl hw' rfl⟩

end Reverb
