import Reverb.Proto

/-!
# `ReverbServer`

gRPC server の起動と停止。`ReplayServiceImpl` と gRPC の server は src にないので、server が
外に残すこと（service の `Close()` と server の `Shutdown(deadline)`）を列として返す。
`server_` は、`BuildAndStart()` が null を返さなかったかどうかだけを持つ。
-/

namespace Reverb

/-- `ReverbServer` が外に残すこと。 -/
inductive ServerEvent where
  /-- `replay_service_->Close()`。 -/
  | closeService
  /-- `server_->Shutdown(now + deadline)`。 -/
  | shutdown (deadlineSeconds : Nat)
  deriving DecidableEq, Repr

/-- `ReverbServer` の field。`serverBuilt` は `server_` が null でないこと。 -/
structure ReverbServer where
  port : Int
  serverBuilt : Bool
  running : Bool
  deriving DecidableEq, Repr

namespace ReverbServer

/-- constructor。`BuildAndStart()` の成否は `serverBuilt` として与える。 -/
def new (port : Int) (serverBuilt : Bool) : ReverbServer := ⟨port, serverBuilt, false⟩

/-- `Initialize`（`initialize` は Lean の予約語）。二度目の呼び出しでは `REVERB_CHECK` が落ちる（`none`）。 -/
def initializeServer (s : ReverbServer) : Option (Status × ReverbServer) :=
  if s.running then none
  else if !s.serverBuilt then some (⟨.invalidArgument, "Failed to BuildAndStart gRPC server"⟩, s)
  else some (.okStatus, { s with running := true })

/-- `Stop`。動いていなければ何もしない。 -/
def stop (s : ReverbServer) : List ServerEvent × ReverbServer :=
  if !s.running then ([], s) else ([.closeService, .shutdown 5], { s with running := false })

/-- `~ReverbServer`：`Stop()` を呼ぶ。 -/
def destroy (s : ReverbServer) : List ServerEvent := s.stop.1

/--
`StartReverbServer`。新しい server を作って `Initialize` し、失敗すればそれを壊して status を
返す。成功すれば `*server` と入れ替え、入れ替えで出た古い server を壊す。
結果は status、`*server`、壊した server が残したこと。
-/
def startReverbServer (port : Int) (serverBuilt : Bool) (server : Option ReverbServer) :
    Option (Status × Option ReverbServer × List ServerEvent) := do
  let (status, s) ← (new port serverBuilt).initializeServer
  if !status.ok then return (status, server, s.destroy)
  return (.okStatus, some s, (server.map destroy).getD [])

end ReverbServer

end Reverb
