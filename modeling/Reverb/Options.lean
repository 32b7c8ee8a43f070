import Reverb.System

/-!
# `ReplaySampler` の constructor

constructor は `Options` の既定値を解き、`CHECK` を通れば worker を作ってその thread を始める。
既定値の定数（`kUnlimitedMaxSamples`・`kAutoSelectValue`・`kDefaultNumWorkers`・
`kDefaultMaxSamplesPerStream`）は replay_sampler.h にあり src/ にないので、`OptionDefaults` として
与える。

結果は、始めた thread とともに `World` として返す。どの `CHECK` が落ちても `none` である。
`max_samples_per_stream` は `CHECK` されない。
-/

namespace Reverb

/-- `ReplaySampler::Options` のうち constructor が読む field。 -/
structure Options where
  maxSamples : Int
  maxInFlightSamplesPerWorker : Int
  numWorkers : Int
  maxSamplesPerStream : Int
  deriving DecidableEq, Repr

/-- `Options` の既定値を表す定数。 -/
structure OptionDefaults where
  unlimitedMaxSamples : Int
  autoSelectValue : Int
  defaultNumWorkers : Int
  defaultMaxSamplesPerStream : Int
  deriving DecidableEq, Repr

/-- `INT64_MAX`。 -/
def int64Max : Int := 9223372036854775807

namespace ReplaySampler

variable {ε : Type}

/--
`ReplaySampler::ReplaySampler`。

`max_samples_` と `max_samples_per_stream_` の既定値を解き、`samples_` の容量を
`max(num_workers, 1)` とする。`max_samples_ > 0`、`max_in_flight_samples_per_worker > 0`、
`num_workers` が `kAutoSelectValue` か正であることを `CHECK` する。作る worker の数は、
`num_workers` の既定値を解いたものを、`max_samples_ / max_in_flight_samples_per_worker`
（C++ の整数の割り算）と 1 の大きい方で抑えたもの。
-/
def new (k : OptionDefaults) (table : String) (options : Options) : Option (World ε) :=
  let maxSamples :=
    if options.maxSamples = k.unlimitedMaxSamples then int64Max else options.maxSamples
  let maxSamplesPerStream :=
    if options.maxSamplesPerStream = k.autoSelectValue then k.defaultMaxSamplesPerStream
    else options.maxSamplesPerStream
  if 0 < maxSamples then
    if h : 0 < options.maxInFlightSamplesPerWorker then
      if options.numWorkers = k.autoSelectValue ∨ 0 < options.numWorkers then
        let numWorkers :=
          if options.numWorkers = k.autoSelectValue then k.defaultNumWorkers
          else options.numWorkers
        let numWorkers :=
          min numWorkers (max 1 (maxSamples.tdiv options.maxInFlightSamplesPerWorker))
        let worker : Worker := ⟨table, options.maxInFlightSamplesPerWorker, h, false⟩
        some (World.init maxSamples maxSamplesPerStream options.numWorkers
          (List.replicate numWorkers.toNat worker))
      else none
    else none
  else none

end ReplaySampler

end Reverb
