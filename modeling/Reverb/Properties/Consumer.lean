import Reverb.Properties.Progress

/-!
# 利用者の thread から見た sampler

`Reverb.Properties.Sampler` の `TimestepRun` と `SampleRun` は、sampler の値だけを見て、
利用者の呼び出しを一つの単位として扱う。`World.Step` では、呼び出しは前半（`mu_` を取る前）と
`returned_` を数える区間に分かれ、その間にも worker の thread と `Close` が進む。
ここでは、`World.Step` の走りがそれらの走りを模倣することを示す。

* `World.consumerView` — 数える区間の前なら、`returned_` はもう数えたものとして見る。
* `World.Step.cases_consumer` — どの単位も、利用者に触らない単位（`Background`）、queue に
  入れる単位（`Pushes`）、利用者の三つの単位のどれかである。
* `World.TimestepSteps.timestepRun`・`World.SampleSteps.sampleRun` — 利用者が
  `GetNextTimestep`（`GetNextSample`）だけを呼ぶ走りは、見た sampler の `TimestepRun`
  （`SampleRun`）で、入れた sample と呼び出しの結果は同じ列になる。
* `timestepSteps_deliveries`・`sampleSteps_fifo` — そこから、`Reverb.Properties.Sampler` の
  性質が thread の走りでも成り立つ。
-/

namespace Reverb

variable {P ε : Type}

namespace ReplaySampler

theorem countReturned_of_ne {r : ReplaySampler ε} (h : r.returned + 1 ≠ r.maxSamples) :
    r.countReturned = { r with returned := r.returned + 1 } := by
  simp [countReturned, h]

/-- `GetNextTimestep` は、前半の後に、利用者が数えに行くときだけ数える。 -/
theorem getNextTimestep_of_takeTimestep {r r' : ReplaySampler ε}
    {result : Except Status (List (Tensor ε) × Bool)} (h : r.takeTimestep = some (result, r')) :
    r.getNextTimestep = some (result,
      if ConsumerPc.afterTimestep result = .counting then r'.countReturned else r') := by
  unfold getNextTimestep
  rw [h]
  rcases result with status | ⟨data, _ | _⟩ <;> rfl

/-- `GetNextSample` は、前半の後に、利用者が数えに行くときだけ数える。 -/
theorem getNextSample_of_takeSample {r r' : ReplaySampler ε}
    {result : Except Status (List (Tensor ε))} (h : r.takeSample = some (result, r')) :
    r.getNextSample = some (result,
      if ConsumerPc.afterSample result = .counting then r'.countReturned else r') := by
  unfold getNextSample
  rw [h]
  rcases result with status | data <;> rfl

end ReplaySampler

namespace World

/-- 利用者の thread から見た sampler。`returned_` を数える区間の前なら、もう数えたものとする。 -/
def consumerView (w : World ε) : ReplaySampler ε :=
  if w.consumer = .counting then w.sampler.countReturned else w.sampler

theorem consumerView_of_ne {w : World ε} (h : w.consumer ≠ .counting) :
    w.consumerView = w.sampler :=
  if_neg h

theorem consumerView_of_counting {w : World ε} (h : w.consumer = .counting) :
    w.consumerView = w.sampler.countReturned :=
  if_pos h

@[simp] theorem consumerView_activeSample (w : World ε) :
    w.consumerView.activeSample = w.sampler.activeSample := by
  unfold consumerView
  split <;> rfl

@[simp] theorem consumerView_items (w : World ε) :
    w.consumerView.samples.items = w.sampler.samples.items := by
  unfold consumerView
  split <;> simp

@[simp] theorem consumerView_pending (w : World ε) :
    w.consumerView.pending = w.sampler.pending := by
  simp [ReplaySampler.pending]

/-- 利用者の位置と今の sample に触らず、queue に何も入れない単位。worker の thread と `Close` の
単位のうち `Push` でないものは、どれもこれにあたる（`Step.cases_consumer`）。 -/
structure Background (codec : Codec P ε) (w w' : World ε) : Prop where
  step : Step codec w w'
  consumer : w'.consumer = w.consumer
  activeSample : w'.sampler.activeSample = w.sampler.activeSample
  pushed : w'.pushed = w.pushed

/-- worker の `samples->Push(s)`。 -/
structure Pushes (codec : Codec P ε) (s : Sample ε) (w w' : World ε) : Prop where
  step : Step codec w w'
  consumer : w'.consumer = w.consumer
  queue : ∃ q, w.sampler.samples.push s = some (true, q) ∧
    w'.sampler = { w.sampler with samples := q }
  pushed : w'.pushed = w.pushed + 1

/-- どの単位も、利用者に触らない単位、queue に入れる単位、利用者の三つの単位（`GetNextTimestep` の
前半、`GetNextSample` の前半、数える区間）のどれかである。 -/
theorem Step.cases_consumer {codec : Codec P ε} {w w' : World ε} (h : Step codec w w') :
    Background codec w w' ∨ (∃ s, Pushes codec s w w') ∨
    (w.consumer = .idle ∧ ∃ result r, w.sampler.takeTimestep = some (result, r) ∧
      w' = { w with sampler := r, consumer := .afterTimestep result }) ∨
    (w.consumer = .idle ∧ ∃ result r, w.sampler.takeSample = some (result, r) ∧
      w' = { w with sampler := r, consumer := .afterSample result }) ∨
    (w.consumer = .counting ∧
      w' = { w with sampler := w.sampler.countReturned, consumer := .idle }) := by
  cases h with
  | reserve hti hpc hres =>
    exact .inl ⟨.reserve hti hpc hres, rfl, (ReplaySampler.reserve_frame hres).2, rfl⟩
  | openStream env hti hpc hrun => exact .inl ⟨.openStream env hti hpc hrun, rfl, rfl, rfl⟩
  | push hti hpc hpush => exact .inr (.inl ⟨_, .push hti hpc hpush, rfl, ⟨_, hpush, rfl⟩, rfl⟩)
  | finish hti hpc hfin =>
    refine .inl ⟨.finish hti hpc hfin, rfl, ?_, rfl⟩
    rcases ReplaySampler.finishStream_cases hfin with ⟨-, -, -, -, rfl⟩ | ⟨-, rfl⟩ <;> rfl
  | timestep hc ht => exact .inr (.inr (.inl ⟨hc, _, _, ht, rfl⟩))
  | sample hc ht => exact .inr (.inr (.inr (.inl ⟨hc, _, _, ht, rfl⟩)))
  | count hc => exact .inr (.inr (.inr (.inr ⟨hc, rfl⟩)))
  | close hm =>
    refine .inl ⟨.close hm, rfl, ?_, rfl⟩
    unfold ReplaySampler.markClosed at hm
    split at hm <;> cases hm <;> rfl
  | cancel hcl hti => exact .inl ⟨.cancel hcl hti, rfl, rfl, rfl⟩
  | closeQueue hcl => exact .inl ⟨.closeQueue hcl, rfl, rfl, rfl⟩

/-- 利用者に触らない単位は、`returned_`、`max_samples_`、queue の中身を変えない。`GetNextTimestep`
の前半が queue の先頭を取り出すのは今の sample を使い切ったときだけで、取り出した sample に行が
残るなら今の sample が変わり、残らないなら利用者は数えに行く。 -/
theorem Background.sampler_eq {codec : Codec P ε} {w w' : World ε}
    (hper : 1 ≤ w.sampler.maxSamplesPerStream) (hb : Background codec w w') :
    w'.sampler.returned = w.sampler.returned ∧ w'.sampler.maxSamples = w.sampler.maxSamples ∧
      w'.sampler.samples.items = w.sampler.samples.items := by
  obtain ⟨h, hc, ha, hp⟩ := hb
  cases h with
  | reserve _ _ hres =>
    rcases ReplaySampler.reserve_cases hper hres with ⟨-, rfl⟩ | ⟨n, -, -, -, -, rfl⟩ <;>
      exact ⟨rfl, rfl, rfl⟩
  | openStream | cancel | closeQueue => exact ⟨rfl, rfl, rfl⟩
  | push => simp at hp
  | finish _ _ hfin =>
    obtain ⟨-, hret, hmax, -, -, hitems, -⟩ := ReplaySampler.finishStream_fields hfin
    exact ⟨hret, hmax, hitems⟩
  | @timestep result r hidle ht =>
    rcases result with status | ⟨data, _ | _⟩
    · cases ReplaySampler.takeTimestep_error ht
      exact ⟨rfl, rfl, rfl⟩
    · obtain ⟨_, r₁, _, a', hm, -, -, heos, rfl⟩ := ReplaySampler.takeTimestep_ok ht
      rcases ReplaySampler.maybeSampleNext_cases hm with rfl | ⟨-, -, hend, _, _, -, rfl⟩
      · exact ⟨rfl, rfl, rfl⟩
      · cases heos.trans (hend a' ha.symm)
    · rw [hidle] at hc
      cases hc
  | @sample result r hidle ht =>
    rcases result with status | data
    · cases ReplaySampler.takeSample_error ht
      exact ⟨rfl, rfl, rfl⟩
    · rw [hidle] at hc
      cases hc
  | count hcount =>
    rw [hcount] at hc
    cases hc
  | close hm =>
    unfold ReplaySampler.markClosed at hm
    split at hm <;> cases hm <;> exact ⟨rfl, rfl, rfl⟩

/-- 利用者に触らない単位は、見た sampler の `TimestepRun.other`（`SampleRun.other`）の一歩である。 -/
theorem Background.view {codec : Codec P ε} {w w' : World ε}
    (hper : 1 ≤ w.sampler.maxSamplesPerStream) (hb : Background codec w w') :
    w'.consumerView.activeSample = w.consumerView.activeSample ∧
      w'.consumerView.returned = w.consumerView.returned ∧
      w'.consumerView.maxSamples = w.consumerView.maxSamples ∧
      w'.consumerView.samples.items = w.consumerView.samples.items := by
  obtain ⟨hret, hmax, hitems⟩ := hb.sampler_eq hper
  unfold consumerView
  rw [hb.consumer]
  by_cases hc : w.consumer = .counting <;> simp [hc, hb.activeSample, hret, hmax, hitems]

/-- 数える区間の前に worker が queue に入れられるなら、数えても queue は閉じない。だから、入れる
ことは見た sampler の `Push` でもある。 -/
theorem Pushes.view {codec : Codec P ε} {m : Int} {s : Sample ε} {w w' : World ε}
    (hi : Inv m w) (hp : Pushes codec s w w') :
    ∃ q, w.consumerView.samples.push s = some (true, q) ∧
      w'.consumerView = { w.consumerView with samples := q } := by
  obtain ⟨q, hpush, hq⟩ := hp.queue
  by_cases hc : w.consumer = .counting
  · have hlt : w.sampler.returned + 1 ≠ w.sampler.maxSamples := by
      have hi' := step_inv hp.step hi
      have hpending : 1 ≤ w.pendingCount := by simp [pendingCount, hc]
      have := hi.returned_eq
      have := hi.maxSamples
      have := hi'.pushed_le.2
      have := hi'.requested_le
      have := hp.pushed
      omega
    rw [consumerView_of_counting hc, consumerView_of_counting (hp.consumer.trans hc), hq,
      ReplaySampler.countReturned_of_ne hlt,
      ReplaySampler.countReturned_of_ne (r := { w.sampler with samples := q }) hlt]
    exact ⟨q, hpush, rfl⟩
  · rw [consumerView_of_ne hc, consumerView_of_ne (hp.consumer ▸ hc), hq]
    exact ⟨q, hpush, rfl⟩

/-! ## 利用者が `GetNextTimestep` だけを呼ぶ走り -/

/--
利用者が `GetNextTimestep` だけを呼ぶ thread の走り。`pushed` は worker が queue に入れた
sample、`results` は呼び出しの前半の結果を、起きた順に並べたもの。

* `background` — 利用者に触らない単位。
* `push` — worker の `Push`。
* `timestep`・`count` — `World.Step` の同じ名前の単位。
-/
inductive TimestepSteps (codec : Codec P ε) :
    World ε → List (Sample ε) → List (Except Status (List (Tensor ε) × Bool)) → World ε → Prop
  | nil (w : World ε) : TimestepSteps codec w [] [] w
  | background {w w₁ w' : World ε} {pushed results} :
      Background codec w w₁ → TimestepSteps codec w₁ pushed results w' →
      TimestepSteps codec w pushed results w'
  | push {w w₁ w' : World ε} {s : Sample ε} {pushed results} :
      Pushes codec s w w₁ → TimestepSteps codec w₁ pushed results w' →
      TimestepSteps codec w (s :: pushed) results w'
  | timestep {w w' : World ε} {result : Except Status (List (Tensor ε) × Bool)}
      {r : ReplaySampler ε} {pushed results} :
      w.consumer = .idle → w.sampler.takeTimestep = some (result, r) →
      TimestepSteps codec { w with sampler := r, consumer := .afterTimestep result } pushed results w' →
      TimestepSteps codec w pushed (result :: results) w'
  | count {w w' : World ε} {pushed results} :
      w.consumer = .counting →
      TimestepSteps codec { w with sampler := w.sampler.countReturned, consumer := .idle }
        pushed results w' →
      TimestepSteps codec w pushed results w'

/--
利用者が `GetNextSample` だけを呼ぶ thread の走り。

* `background` — 利用者に触らない単位。
* `push` — worker の `Push`。
* `sample`・`count` — `World.Step` の同じ名前の単位。
-/
inductive SampleSteps (codec : Codec P ε) :
    World ε → List (Sample ε) → List (Except Status (List (Tensor ε))) → World ε → Prop
  | nil (w : World ε) : SampleSteps codec w [] [] w
  | background {w w₁ w' : World ε} {pushed results} :
      Background codec w w₁ → SampleSteps codec w₁ pushed results w' →
      SampleSteps codec w pushed results w'
  | push {w w₁ w' : World ε} {s : Sample ε} {pushed results} :
      Pushes codec s w w₁ → SampleSteps codec w₁ pushed results w' →
      SampleSteps codec w (s :: pushed) results w'
  | sample {w w' : World ε} {result : Except Status (List (Tensor ε))} {r : ReplaySampler ε}
      {pushed results} :
      w.consumer = .idle → w.sampler.takeSample = some (result, r) →
      SampleSteps codec { w with sampler := r, consumer := .afterSample result } pushed results w' →
      SampleSteps codec w pushed (result :: results) w'
  | count {w w' : World ε} {pushed results} :
      w.consumer = .counting →
      SampleSteps codec { w with sampler := w.sampler.countReturned, consumer := .idle }
        pushed results w' →
      SampleSteps codec w pushed results w'

section Simulation

variable {codec : Codec P ε} {m : Int}

/-- 数える区間は、見た sampler を変えない。 -/
theorem consumerView_count {w : World ε} (hc : w.consumer = .counting) :
    ({ w with sampler := w.sampler.countReturned, consumer := .idle } : World ε).consumerView
      = w.consumerView := by
  rw [consumerView_of_ne (by simp), consumerView_of_counting hc]

theorem TimestepSteps.reachable {w w' : World ε} {pushed results}
    (h : TimestepSteps codec w pushed results w') : Reachable codec w w' := by
  induction h with
  | nil => exact .init
  | background hb _ ih => exact (Reachable.step .init hb.step).trans ih
  | push hp _ ih => exact (Reachable.step .init hp.step).trans ih
  | timestep hc ht _ ih => exact (Reachable.step .init (.timestep hc ht)).trans ih
  | count hc _ ih => exact (Reachable.step .init (.count hc)).trans ih

theorem SampleSteps.reachable {w w' : World ε} {pushed results}
    (h : SampleSteps codec w pushed results w') : Reachable codec w w' := by
  induction h with
  | nil => exact .init
  | background hb _ ih => exact (Reachable.step .init hb.step).trans ih
  | push hp _ ih => exact (Reachable.step .init hp.step).trans ih
  | sample hc ht _ ih => exact (Reachable.step .init (.sample hc ht)).trans ih
  | count hc _ ih => exact (Reachable.step .init (.count hc)).trans ih

/-- **模倣**：利用者が `GetNextTimestep` だけを呼ぶ thread の走りは、見た sampler の `TimestepRun`
である。利用者に触らない単位は `other`、worker の `Push` は `push`、呼び出しの前半とその後の
数える区間は合わせて一回の `call` になる。失敗した呼び出しは何も変えない。 -/
theorem TimestepSteps.timestepRun {w w' : World ε} {pushed : List (Sample ε)} {results}
    (hi : Inv m w) (h : TimestepSteps codec w pushed results w') :
    ReplaySampler.TimestepRun w.consumerView pushed (results.filterMap Except.toOption)
        w'.consumerView ∧
      w'.pushed = w.pushed + pushed.length := by
  induction h with
  | nil => exact ⟨.nil _, rfl⟩
  | background hb _ ih =>
    obtain ⟨hrun, hp⟩ := ih (step_inv hb.step hi)
    obtain ⟨ha, hr, hm, hit⟩ := hb.view hi.perStream
    exact ⟨.other ha hr hm hit hrun, by rw [hp, hb.pushed]⟩
  | push hp _ ih =>
    obtain ⟨hrun, hpushed⟩ := ih (step_inv hp.step hi)
    obtain ⟨q, hpush, hview⟩ := hp.view hi
    refine ⟨.push hpush (hview ▸ hrun), ?_⟩
    rw [hpushed, hp.pushed, List.length_cons]
    omega
  | @timestep w _ result r _ _ hc ht _ ih =>
    obtain ⟨hrun, hp⟩ := ih (step_inv (show Step codec _ _ from .timestep hc ht) hi)
    rw [consumerView_of_ne (w := w) (by simp [hc])]
    rcases result with status | out
    · cases ReplaySampler.takeTimestep_error ht
      rw [consumerView_of_ne (by simp [ConsumerPc.afterTimestep])] at hrun
      exact ⟨hrun, hp⟩
    · exact ⟨.call (ReplaySampler.getNextTimestep_of_takeTimestep ht) hrun, hp⟩
  | count hc _ ih =>
    obtain ⟨hrun, hp⟩ := ih (step_inv (show Step codec _ _ from .count hc) hi)
    exact ⟨consumerView_count hc ▸ hrun, hp⟩

/-- **模倣**：利用者が `GetNextSample` だけを呼ぶ thread の走りは、見た sampler の `SampleRun` で、
呼び出しの結果は同じ列である。 -/
theorem SampleSteps.sampleRun {w w' : World ε} {pushed : List (Sample ε)} {results}
    (hi : Inv m w) (h : SampleSteps codec w pushed results w') :
    ReplaySampler.SampleRun w.consumerView pushed results w'.consumerView ∧
      w'.pushed = w.pushed + pushed.length := by
  induction h with
  | nil => exact ⟨.nil _, rfl⟩
  | background hb _ ih =>
    obtain ⟨hrun, hp⟩ := ih (step_inv hb.step hi)
    obtain ⟨-, hr, -, hit⟩ := hb.view hi.perStream
    exact ⟨.other hr hit hrun, by rw [hp, hb.pushed]⟩
  | push hp _ ih =>
    obtain ⟨hrun, hpushed⟩ := ih (step_inv hp.step hi)
    obtain ⟨q, hpush, hview⟩ := hp.view hi
    refine ⟨.push hpush (hview ▸ hrun), ?_⟩
    rw [hpushed, hp.pushed, List.length_cons]
    omega
  | @sample w _ result r _ _ hc ht _ ih =>
    obtain ⟨hrun, hp⟩ := ih (step_inv (show Step codec _ _ from .sample hc ht) hi)
    rw [consumerView_of_ne (w := w) (by simp [hc])]
    exact ⟨.call (ReplaySampler.getNextSample_of_takeSample ht) hrun, hp⟩
  | count hc _ ih =>
    obtain ⟨hrun, hp⟩ := ih (step_inv (show Step codec _ _ from .count hc) hi)
    exact ⟨consumerView_count hc ▸ hrun, hp⟩

end Simulation

end World

section Deliveries

variable {codec : Codec P ε} {m : Int}

/-- **thread の走りでの `GetNextTimestep`**：利用者が `GetNextTimestep` だけを呼ぶ間に、worker が
どの順に sample を入れ、`Close` がどこで起きても、queue は入れた順に取り出され、OK を返した
呼び出しの行と今の sample に残る行をつなぐと、初めに残っていた行と取り出した sample の行を
つないだものになる。数えた後の `returned_` は、最後の行を渡した呼び出しの数だけ増える。 -/
theorem timestepSteps_deliveries {w w' : World ε} {pushed : List (Sample ε)} {results}
    (hi : World.Inv m w) (h : World.TimestepSteps codec w pushed results w')
    (hr : w.sampler.ActiveValid) (hq : ∀ s ∈ w.sampler.samples.items ++ pushed, s.Ready) :
    ∃ popped, w.sampler.samples.items ++ pushed = popped ++ w'.sampler.samples.items ∧
      results.filterMap Except.toOption ++ w'.sampler.pending
        = w.sampler.pending ++ popped.flatMap Sample.deliveries ∧
      w'.consumerView.returned
        = w.consumerView.returned + (results.filterMap Except.toOption).countP (·.2) ∧
      w'.pushed = w.pushed + pushed.length := by
  obtain ⟨hrun, hp⟩ := h.timestepRun hi
  obtain ⟨popped, hfifo, hdel, hret, -⟩ := ReplaySampler.timestepRun_deliveries hrun
    (by simpa [ReplaySampler.ActiveValid] using hr) (by simpa using hq)
  exact ⟨popped, by simpa using hfifo, by simpa using hdel, hret, hp⟩

/-- 一行の sample を渡して数えに行く間に、worker がもう一つを入れる。数えた後、使い切った sample
から次の sample へ移ってその一行を渡し、`returned_` は `max_samples_` に届く。 -/
theorem timestepSteps_deliveries_push_while_counting :
    let codec : Codec Unit Unit := ⟨fun _ => 1, fun _ => .stack [.scalar (.elem ())], fun t _ => t⟩
    let w₀ : World Unit := World.init 2 1 1 [⟨"", 1, by decide, false⟩]
    World.Inv 2 w₀ ∧ w₀.sampler.ActiveValid ∧ ∃ pushed results w,
      World.TimestepSteps codec w₀ pushed results w ∧ pushed.length = 2 ∧
      (results.filterMap Except.toOption).length = 2 ∧
      (∀ s ∈ w₀.sampler.samples.items ++ pushed, s.Ready) ∧
      ∃ popped, w₀.sampler.samples.items ++ pushed = popped ++ w.sampler.samples.items ∧
        results.filterMap Except.toOption ++ w.sampler.pending
          = w₀.sampler.pending ++ popped.flatMap Sample.deliveries ∧
        w.consumerView.returned
          = w₀.consumerView.returned + (results.filterMap Except.toOption).countP (·.2) ∧
        w.pushed = w₀.pushed + pushed.length := by
  intro codec w₀
  have hi : World.Inv 2 w₀ := World.init_inv (by decide) (by decide)
  have hr : w₀.sampler.ActiveValid := fun _ h => by cases h
  have hrun : World.TimestepSteps codec w₀ _ _ _ :=
    .background ⟨.reserve (i := 0) rfl rfl rfl, rfl, rfl, rfl⟩ <|
    .background ⟨.openStream (i := 0) _ rfl rfl openStreamAndFetch_oneRow, rfl, rfl, rfl⟩ <|
    .push ⟨.push (i := 0) rfl rfl rfl, rfl, ⟨_, rfl, rfl⟩, rfl⟩ <|
    .timestep rfl rfl <|
    .background ⟨.finish (i := 0) rfl rfl rfl, rfl, rfl, rfl⟩ <|
    .background ⟨.reserve (i := 0) rfl rfl rfl, rfl, rfl, rfl⟩ <|
    .background ⟨.openStream (i := 0) _ rfl rfl openStreamAndFetch_oneRow, rfl, rfl, rfl⟩ <|
    .push ⟨.push (i := 0) rfl rfl rfl, rfl, ⟨_, rfl, rfl⟩, rfl⟩ <|
    .count rfl <| .timestep rfl rfl <| .count rfl <| .nil _
  refine ⟨hi, hr, _, _, _, hrun, rfl, rfl, ?hq, timestepSteps_deliveries hi hrun hr ?hq⟩
  rintro s hs
  rcases List.mem_append.1 hs with h | h
  · cases h
  · simp only [List.mem_cons, List.not_mem_nil, or_false] at h
    rcases h with rfl | rfl <;> exact Sample.ready_oneRow 0

/-- **thread の走りでの `GetNextSample`**：利用者が `GetNextSample` だけを呼ぶ間に、worker が
どの順に sample を入れ、`Close` がどこで起きても、OK を返した呼び出しは、queue に入った順に
sample を一つずつ取り出してまとめたものを返し、抜けも重なりもない。 -/
theorem sampleSteps_fifo {w w' : World ε} {pushed : List (Sample ε)} {results}
    (hi : World.Inv m w) (h : World.SampleSteps codec w pushed results w') :
    ∃ popped, w.sampler.samples.items ++ pushed = popped ++ w'.sampler.samples.items ∧
      popped.mapM Sample.asBatchedTimesteps = some (results.filterMap Except.toOption) ∧
      w'.consumerView.returned = w.consumerView.returned + popped.length ∧
      w'.pushed = w.pushed + pushed.length := by
  obtain ⟨hrun, hp⟩ := h.sampleRun hi
  obtain ⟨popped, hfifo, hmap, hret⟩ := ReplaySampler.sampleRun_popped hrun
  exact ⟨popped, by simpa using hfifo, hmap, hret, hp⟩

/-- 同じ走りで、利用者が `GetNextSample` を呼ぶ。 -/
theorem sampleSteps_fifo_push_while_counting :
    let codec : Codec Unit Unit := ⟨fun _ => 1, fun _ => .stack [.scalar (.elem ())], fun t _ => t⟩
    let w₀ : World Unit := World.init 2 1 1 [⟨"", 1, by decide, false⟩]
    World.Inv 2 w₀ ∧ ∃ pushed results w,
      World.SampleSteps codec w₀ pushed results w ∧ pushed.length = 2 ∧
      (results.filterMap Except.toOption).length = 2 ∧
      ∃ popped, w₀.sampler.samples.items ++ pushed = popped ++ w.sampler.samples.items ∧
        popped.mapM Sample.asBatchedTimesteps = some (results.filterMap Except.toOption) ∧
        w.consumerView.returned = w₀.consumerView.returned + popped.length ∧
        w.pushed = w₀.pushed + pushed.length := by
  intro codec w₀
  have hi : World.Inv 2 w₀ := World.init_inv (by decide) (by decide)
  have hrun : World.SampleSteps codec w₀ _ _ _ :=
    .background ⟨.reserve (i := 0) rfl rfl rfl, rfl, rfl, rfl⟩ <|
    .background ⟨.openStream (i := 0) _ rfl rfl openStreamAndFetch_oneRow, rfl, rfl, rfl⟩ <|
    .push ⟨.push (i := 0) rfl rfl rfl, rfl, ⟨_, rfl, rfl⟩, rfl⟩ <|
    .sample rfl rfl <|
    .background ⟨.finish (i := 0) rfl rfl rfl, rfl, rfl, rfl⟩ <|
    .background ⟨.reserve (i := 0) rfl rfl rfl, rfl, rfl, rfl⟩ <|
    .background ⟨.openStream (i := 0) _ rfl rfl openStreamAndFetch_oneRow, rfl, rfl, rfl⟩ <|
    .push ⟨.push (i := 0) rfl rfl rfl, rfl, ⟨_, rfl, rfl⟩, rfl⟩ <|
    .count rfl <| .sample rfl rfl <| .count rfl <| .nil _
  exact ⟨hi, _, _, _, hrun, rfl, rfl, sampleSteps_fifo hi hrun⟩

end Deliveries

end Reverb
