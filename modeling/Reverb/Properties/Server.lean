import Reverb.Server

/-!
# `ReverbServer` の起動と停止

server を使う側の呼び出し（`Initialize` と `Stop`）の列を `ServerCall` で表す。

1. `initializeServer_cases`・`stop_stop` — 一回の呼び出し。`Stop` は二度目には何もしない。
2. `run_events` — 呼び出しの列の帰納法：列が残したことと、最後に server を壊したときに残すことを
   つなぐと、OK を返した `Initialize` の数だけ、service の `Close()` と `Shutdown` が一組ずつ並ぶ。
3. `serverLifecycle` — 作ったばかりの server についての 2。`BuildAndStart()` が失敗した server は、
   どの `Initialize` にも `INVALID_ARGUMENT` を返し、何も残さない。
4. `startReverbServer_cases` — `StartReverbServer` は、成功すれば動いている server を `*server` に
   置いて古い server を壊し、失敗すれば `*server` に触らない。
-/

namespace Reverb

/-- server を使う側の呼び出し。 -/
inductive ServerCall where
  | initializeServer
  | stop
  deriving DecidableEq, Repr

namespace ReverbServer

/-- 呼び出しの列を順に実行する。結果は各 `Initialize` の status、残したこと、最後の状態。 -/
def run : ReverbServer → List ServerCall → Option (List Status × List ServerEvent × ReverbServer)
  | s, [] => some ([], [], s)
  | s, .initializeServer :: calls => do
    let (status, s) ← s.initializeServer
    let (statuses, events, s) ← run s calls
    return (status :: statuses, events, s)
  | s, .stop :: calls => do
    let (events, s) := s.stop
    let (statuses, events', s) ← run s calls
    return (statuses, events ++ events', s)

/-- `Stop` が動いている server に残す一組。 -/
def closePair : List ServerEvent := [.closeService, .shutdown 5]

/-- `BuildAndStart()` が失敗した server の `Initialize` が返す status。 -/
def buildFailed : Status := ⟨.invalidArgument, "Failed to BuildAndStart gRPC server"⟩

/-! ## 一回の呼び出し -/

variable {s s' : ReverbServer}

theorem initializeServer_cases {status : Status} (h : s.initializeServer = some (status, s')) :
    s.running = false ∧ (status = .okStatus ∧ s.serverBuilt = true ∧ s' = { s with running := true } ∨
      status = buildFailed ∧ s.serverBuilt = false ∧ s' = s) := by
  unfold initializeServer at h
  split at h
  · cases h
  · rename_i hrun
    split at h <;> rename_i hb <;> obtain ⟨rfl, rfl⟩ := Prod.mk.inj (Option.some.inj h)
    · exact ⟨by simpa using hrun, .inr ⟨rfl, by simpa using hb, rfl⟩⟩
    · exact ⟨by simpa using hrun, .inl ⟨rfl, by simpa using hb, rfl⟩⟩

@[simp] theorem stop_running (s : ReverbServer) : s.stop.2.running = false := by
  cases h : s.running <;> simp [stop, h]

theorem destroy_eq (s : ReverbServer) : s.destroy = if s.running then closePair else [] := by
  cases h : s.running <;> simp [destroy, stop, closePair, h]

/-- `Stop` を続けて呼ぶと、二度目は何もしない。 -/
theorem stop_stop (s : ReverbServer) : s.stop.2.stop = ([], s.stop.2) := by
  cases h : s.running <;> simp [stop, h]

/-- `Stop` が残すのは、そこで server を壊したときに残すことと同じ。 -/
theorem stop_events (s : ReverbServer) : s.stop.1 = s.destroy := rfl

/-! ## 呼び出しの列 -/

/-- **呼び出しの列**：列が残したことと最後に壊したときに残すことをつなぐと、初めに壊したときに
残すことに、OK を返した `Initialize` の数だけの一組を続けたものになる。 -/
theorem run_events :
    ∀ {calls : List ServerCall} {s s' : ReverbServer} {sts : List Status} {evs : List ServerEvent},
      s.run calls = some (sts, evs, s') →
      evs ++ s'.destroy = s.destroy ++ (List.replicate (sts.countP (·.ok)) closePair).flatten
  | [], s, s', sts, evs, h => by
    simp only [run, Option.some.injEq, Prod.mk.injEq] at h
    obtain ⟨rfl, rfl, rfl⟩ := h
    simp
  | .initializeServer :: calls, s, s', sts, evs, h => by
    simp only [run, bind, Option.bind_eq_some, pure, Option.some.injEq] at h
    obtain ⟨⟨status, s₁⟩, hi, ⟨sts', evs', s₂⟩, hr, h⟩ := h
    simp only [Prod.mk.injEq] at h
    obtain ⟨rfl, rfl, rfl⟩ := h
    rw [run_events hr]
    rcases initializeServer_cases hi with ⟨hrun, ⟨rfl, -, rfl⟩ | ⟨rfl, -, rfl⟩⟩
    · simp [destroy_eq, hrun, List.replicate_succ]
    · simp [buildFailed, Status.ok]
  | .stop :: calls, s, s', sts, evs, h => by
    simp only [run, bind, Option.bind_eq_some, pure, Option.some.injEq] at h
    obtain ⟨⟨sts', evs', s₂⟩, hr, h⟩ := h
    simp only [Prod.mk.injEq] at h
    obtain ⟨rfl, rfl, rfl⟩ := h
    rw [List.append_assoc, run_events hr, stop_events, destroy_eq s.stop.2, stop_running]
    rfl

/-- `BuildAndStart()` が失敗した server は、どの `Initialize` にも `INVALID_ARGUMENT` を返し、
何も残さず、動き出さない。 -/
theorem run_of_not_built :
    ∀ {calls : List ServerCall} {s s' : ReverbServer} {sts : List Status} {evs : List ServerEvent},
      s.serverBuilt = false → s.running = false → s.run calls = some (sts, evs, s') →
      (∀ st ∈ sts, st = buildFailed) ∧ evs = [] ∧ s'.running = false
  | [], s, s', sts, evs, _, hrun, h => by
    simp only [run, Option.some.injEq, Prod.mk.injEq] at h
    obtain ⟨rfl, rfl, rfl⟩ := h
    exact ⟨by simp, rfl, hrun⟩
  | .initializeServer :: calls, s, s', sts, evs, hb, hrun, h => by
    simp only [run, bind, Option.bind_eq_some, pure, Option.some.injEq] at h
    obtain ⟨⟨status, s₁⟩, hi, ⟨sts', evs', s₂⟩, hr, h⟩ := h
    simp only [Prod.mk.injEq] at h
    obtain ⟨rfl, rfl, rfl⟩ := h
    rcases initializeServer_cases hi with ⟨-, ⟨-, hb', -⟩ | ⟨rfl, -, rfl⟩⟩
    · simp [hb] at hb'
    · obtain ⟨hsts, hevs, hrun'⟩ := run_of_not_built hb hrun hr
      exact ⟨by simpa using hsts, hevs, hrun'⟩
  | .stop :: calls, s, s', sts, evs, hb, hrun, h => by
    simp only [run, bind, Option.bind_eq_some, pure, Option.some.injEq] at h
    obtain ⟨⟨sts', evs', s₂⟩, hr, h⟩ := h
    simp only [Prod.mk.injEq] at h
    obtain ⟨rfl, rfl, rfl⟩ := h
    have hstop : s.stop = ([], s) := by simp [stop, hrun]
    rw [hstop] at hr ⊢
    obtain ⟨hsts, hevs, hrun'⟩ := run_of_not_built hb hrun hr
    exact ⟨hsts, by simp [hevs], hrun'⟩

/-- **起動と停止**：作った server を `Initialize` と `Stop` のどんな列で使っても（`REVERB_CHECK` が
落ちなければ）、その列と、最後に server を壊すことが残すのは、OK を返した `Initialize` の数だけの
service の `Close()` と `Shutdown` の組である。`BuildAndStart()` が失敗した server は、どの
`Initialize` にも `INVALID_ARGUMENT` を返し、何も残さない。 -/
theorem serverLifecycle (port : Int) (serverBuilt : Bool) {calls : List ServerCall}
    {sts : List Status} {evs : List ServerEvent} {s : ReverbServer}
    (h : (new port serverBuilt).run calls = some (sts, evs, s)) :
    evs ++ s.destroy = (List.replicate (sts.countP (·.ok)) closePair).flatten ∧
      (serverBuilt = false → (∀ st ∈ sts, st = buildFailed) ∧ evs ++ s.destroy = []) := by
  refine ⟨run_events h, fun hb => ?_⟩
  obtain ⟨hsts, hevs, hrun⟩ := run_of_not_built hb rfl h
  exact ⟨hsts, by simp [hevs, destroy_eq, hrun]⟩

theorem serverLifecycle_restart :
    (new 8000 true).run [.initializeServer, .stop, .initializeServer]
        = some ([.okStatus, .okStatus], closePair, ⟨8000, true, true⟩) ∧
      closePair ++ (⟨8000, true, true⟩ : ReverbServer).destroy
        = (List.replicate 2 closePair).flatten := by
  have h : (new 8000 true).run [.initializeServer, .stop, .initializeServer]
      = some ([.okStatus, .okStatus], closePair, ⟨8000, true, true⟩) := rfl
  exact ⟨h, (serverLifecycle 8000 true h).1⟩

/-- `StartReverbServer` は、成功すれば動いている server を `*server` に置いて古い server を壊し、
失敗すれば `*server` に触らず、何も残さない。`REVERB_CHECK` は落ちない。 -/
theorem startReverbServer_cases (port : Int) (serverBuilt : Bool) (server : Option ReverbServer) :
    startReverbServer port serverBuilt server =
      if serverBuilt then some (.okStatus, some ⟨port, true, true⟩, (server.map destroy).getD [])
      else some (buildFailed, server, []) := by
  cases serverBuilt <;> rfl

end ReverbServer

end Reverb
