import ChunkExchange.Config
import ChunkExchange.Config.Fields
import ChunkExchange.Storage.FileTree
import ChunkExchange.Toml.Document

/-! Configurations read from documents. Every field has a default, unknown keys mean nothing, and an
empty document is the default configuration. -/

namespace ChunkExchange.Config

open Toml (Value Entries)

/-- The pace of a retry record of some kind. Its fields come after the kind and the limit. -/
private def pace? (fields : Fields) (kind : String) : Option Pace := do
  match kind with
  | "constant" =>
    return .constant (← fields.decode 2 "delay_ms" milliseconds? Duration.second)
  | "exponential" =>
    return .exponential (← fields.decode 2 "initial_delay_ms" milliseconds? Duration.second)
      (← fields.decode 3 "multiplier" real? 2)
      (← fields.decode 4 "max_delay_ms" milliseconds? (60 * Duration.second))
  | "immediate" => return .immediate
  | _ => none

private def retryWidth : Pace → Nat
  | .constant _ => 3
  | .exponential _ _ _ => 5
  | .immediate => 2

/-- The limit of a retry record: by name it may be absent, which means no limit; in a list it must
be there. -/
private def limit? : Fields → Option (Option Nat)
  | .named entries =>
    match entries.get? "max_attempts" with
    | some value => (natural32? value).map some
    | none => some none
  | .listed items => do return some (← natural32? (← items[1]?))

/-- A retry record: a kind, a limit and the fields of the kind. A list may not have more. -/
private def backoff? (value : Value) : Option Backoff := do
  let fields ← Fields.ofValue? value
  let kind ← string? (← fields.get? 0 "kind")
  let limit ← limit? fields
  let pace ← pace? fields kind
  match fields with
  | .named _ => return { limit, pace }
  | .listed items =>
    guard (items.length ≤ retryWidth pace)
    return { limit, pace }

private def transfer? (fields : Fields) : Option Options := do
  let defaults : Options := {}
  return {
    chunkSize := ← fields.decode 0 "chunk_size" natural32? defaults.chunkSize
    maxParallelChunks :=
      ← fields.decode 1 "max_parallel_chunks" natural? defaults.maxParallelChunks
    maxParallelPerFile :=
      ← fields.decode 2 "max_parallel_per_file" natural? defaults.maxParallelPerFile
    maxParallelPerPeer :=
      ← fields.decode 3 "max_parallel_per_peer" natural? defaults.maxParallelPerPeer
    requestTimeout :=
      ← fields.decode 4 "request_timeout_ms" milliseconds? defaults.requestTimeout
    smallFileThreshold :=
      ← fields.decode 5 "small_file_threshold" natural? defaults.smallFileThreshold
    smallFileFraction :=
      ← fields.decode 6 "small_file_fraction" real? defaults.smallFileFraction
    downloadRetry := ← fields.decode 7 "download_retry" backoff? defaults.downloadRetry
    uploadRetry := ← fields.decode 8 "upload_retry" backoff? defaults.uploadRetry }

/-- The fields of a section; an absent section has none. -/
private def section? (entries : Entries) (name : String) : Option Fields :=
  match entries.get? name with
  | some value => Fields.ofValue? value
  | none => some (.named [])

/-- The configuration that a document describes. -/
def ofEntries? (entries : Entries) : Option Config := do
  let defaults : Config := {}
  let service ← section? entries "service"
  let logging ← section? entries "logging"
  return {
    transfer := ← transfer? (← section? entries "transfer")
    tickPeriod := ← service.decode 0 "tick_interval_ms" milliseconds? defaults.tickPeriod
    commandBuffer := ← service.decode 1 "command_buffer" natural? defaults.commandBuffer
    logLevel := ← logging.decode 0 "level" string? defaults.logLevel }

def parse (text : String) : Except ConfigError Config :=
  match Toml.parse? text >>= ofEntries? with
  | some config => .ok config
  | none => .error .malformed

def load (tree : FileTree) (path : String) : Except ConfigError Config :=
  match tree.contents (.ofText path) with
  | .ok contents =>
    match contents.text? with
    | some text => parse text
    | none => .error .unreadable
  | .error _ => .error .unreadable

end ChunkExchange.Config
