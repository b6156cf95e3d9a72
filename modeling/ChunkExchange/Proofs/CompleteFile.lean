import ChunkExchange.Fetch.Greedy
import ChunkExchange.Proofs.DiskContent

namespace ChunkExchange.Fetch

open PartStore (partPath partPlace Apart)

/-- Nothing under the name of the file that is assembled reaches beyond a file of this size. -/
def Clean (tree : FileTree) (file : File) (path : String) : Prop :=
  if file.size = 0 then
    ∀ entry, tree.find (.ofText (partPath path)) = .ok entry → entry = .file []
  else ((tree.fileAt (partPlace path)).getD []).length ≤ file.size

/-- All writes and closes succeed, the paths in use are apart, and only the content of a file is
written for it. -/
structure Orderly (file : File) (content : Bytes) (chunkSize : Nat) (events : List Event) :
    Prop where
  succeeds : (onDisk events).failure = none
  apart : ∀ event ∈ events, event.paths.Pairwise Apart
  genuine : ∀ event ∈ events, ∀ write ∈ event.writes file, write.Genuine file content chunkSize

instance (file : File) (content : Bytes) (chunkSize : Nat) (events : List Event) :
    Decidable (Orderly file content chunkSize events) :=
  decidable_of_iff (_ ∧ _ ∧ _)
    ⟨fun ⟨succeeds, apart, genuine⟩ => ⟨succeeds, apart, genuine⟩,
      fun orderly => ⟨orderly.succeeds, orderly.apart, orderly.genuine⟩⟩

variable {Memory : Type} {scheduler : Scheduler Memory} {options : Options} {memory : Memory}
variable {file : File} {path : String} {content : Bytes} {tree : FileTree}

/-- Closing an empty file leaves an empty file just where nothing but an empty file is assembled. -/
theorem contents_close_iff (rooted : tree.Rooted) (empty : file.size = 0)
    (succeeds : (PartStore.close tree path).failure = none) :
    (PartStore.close tree path).tree.contents (.ofText path) = .ok [] ↔ Clean tree file path := by
  rw [Clean, if_pos empty]
  cases (PartStore.close_spec rooted succeeds).2 with
  | @moved contents found result =>
    rw [result, found]
    constructor
    · intro nothing entry same
      cases nothing
      exact (Except.ok.inj same).symm
    · intro clean
      cases clean _ rfl
      rfl
  | carried found result _ =>
    constructor
    · intro nothing
      exact absurd nothing (result [])
    · intro clean
      cases clean _ found
  | created missing result =>
    constructor
    · intro _ entry found
      exact absurd found (missing entry)
    · intro _
      exact result

theorem contents_write_close {offset : Nat} {data : Bytes} (rooted : tree.Rooted)
    (written : (PartStore.write tree path offset data).failure = none)
    (closed : (PartStore.close (PartStore.write tree path offset data).tree path).failure = none) :
    (PartStore.close (PartStore.write tree path offset data).tree path).tree.contents
        (.ofText path) =
      .ok (PartStore.overlay ((tree.fileAt (partPlace path)).getD []) offset data) := by
  obtain ⟨housed, _, assembled, _⟩ := PartStore.write_spec rooted written
  cases (PartStore.close_spec housed closed).2 with
  | moved found result =>
    rw [assembled] at found
    cases found
    exact result
  | carried found =>
    rw [assembled] at found
    cases found
  | created missing => exact absurd assembled (missing _)

/-- The event that stores the last chunk of a file puts its content at its path, and behind it what
was left under the name that it was assembled under. -/
theorem contents_filled {earlier : List Event} {event : Event} {download : Download}
    {extent : Extent} {data left : Bytes} {picks : List Pick}
    (measured : content.length = download.file.size) (fits : download.file.Fits options.chunkSize)
    (finishes : event.Finishes options earlier download.file download.path)
    (genuine : ∀ write ∈ writesSince download.file (earlier ++ [event]),
      write.Genuine download.file content options.chunkSize)
    (asksNot : event.opens download.file = false)
    (writes : event.writes download.file = [.ofChunk download extent data])
    (effects : event.effects = .write download.path extent.offset (data.take extent.size) ::
      .close download.path :: picks.map .get)
    (assembled : assembledAt earlier download.path =
      layWrites (writesSince download.file earlier) left)
    (rooted : (onDisk earlier).tree.Rooted)
    (succeeds : (carryOut (onDisk earlier).tree event.effects).failure = none) :
    (carryOut (onDisk earlier).tree event.effects).tree.contents (.ofText download.path) =
      .ok (content ++ left.drop download.file.size) := by
  -- The writes before this event are on the disk already, and the last one is still to be done.
  have whole := layWrites_of_finishes measured fits finishes genuine left
  rw [writesSince_of_not_opens asksNot, writes, layWrites_append, ← assembled] at whole
  rw [effects] at succeeds ⊢
  obtain ⟨written, rest⟩ := carryOut_cons succeeds
  rw [rest] at succeeds ⊢
  obtain ⟨closed, final⟩ := carryOut_cons succeeds
  rw [final, carryOut_get]
  exact (contents_write_close rooted written closed).trans (congrArg Except.ok whole)

/-- In an orderly run a complete file is its content just when nothing that reaches beyond it was
left where it is assembled before it was asked for, as long as no directory is carried away from
above that place, or to there, in between. -/
theorem contents_iff_clean (scheduler : Scheduler Memory) (options : Options) (memory : Memory)
    (commands : List (Operation × Nat)) {earlier : List Event} {event : Event}
    (events : (History.run scheduler options memory commands).events = earlier ++ [event])
    (told : .completed file path ∈ event.notices)
    (measured : content.length = file.size) (fits : file.Fits options.chunkSize)
    (orderly : Orderly file content options.chunkSize (earlier ++ [event])) :
    ∃ past opening recent, Activation (earlier ++ [event]) file path past opening recent ∧
      (Steady path past opening recent →
        ((onDisk (earlier ++ [event])).tree.contents (.ofText path) = .ok content ↔
          Clean (onDisk past).tree file path)) := by
  obtain ⟨succeeds, apart, genuine⟩ := orderly
  have finishes := History.run_finishes events told
  obtain ⟨front, operation, now, before, current⟩ := History.run_split events
  have lawful := (History.lawful_run scheduler options memory front).event operation now
  rw [← current] at lawful
  obtain ⟨ready, later⟩ := onDisk_append succeeds
  have rooted := rooted_onDisk ready
  rw [List.flatMap_singleton] at later
  rw [later] at succeeds ⊢
  cases (lawful.completes told).1 with
  | empty positive none operation asks effects =>
    refine ⟨earlier, event, [], ⟨rfl, operation, asks, by simp⟩, ?_⟩
    intro _
    have empty := (File.chunkCount_eq_zero_iff positive).mp none
    have nothing : content = [] := List.length_eq_zero_iff.mp (measured.trans empty)
    rw [effects] at succeeds ⊢
    obtain ⟨closed, final⟩ := carryOut_cons succeeds
    rw [final, carryOut_get, nothing]
    exact contents_close_iff rooted empty closed
  | @filled download coverage extent data picks member named placed writes moved complete asksNot
      effects =>
    subst named placed
    have stored := History.assembled_run front (before ▸ ready)
      (fun other listed => apart other (List.mem_append_left _ (before ▸ listed)))
    have active : download ∈ (History.run scheduler options memory front).fetcher.downloads := by
      rw [current] at member
      exact member
    obtain ⟨past, opening, recent, activation, formula⟩ := stored download active
    rw [before] at activation formula
    refine ⟨past, opening, recent ++ [event], activation.append_singleton asksNot, ?_⟩
    intro steady
    have lacking : 0 < download.file.size := by
      have bound := Coverage.lt_count_of_move moved
      rw [(lawful.before.sound download member).count] at bound
      exact Nat.zero_lt_of_lt (File.offset_lt_size bound)
    have own : ∀ write ∈ writesSince download.file (earlier ++ [event]),
        write.Genuine download.file content options.chunkSize := by
      intro write listed
      obtain ⟨source, present, made⟩ := mem_writesSince listed
      exact genuine source present write made
    rw [contents_filled measured fits finishes own asksNot writes effects
        (formula steady.of_append_singleton.1) rooted succeeds,
      Clean, if_neg (Nat.ne_of_gt lacking), Except.ok.injEq, List.append_right_eq_self,
      List.drop_eq_nil_iff]
    rfl

/-- The last four of six bytes come. Then four bytes are asked for at the same path, and come. -/
def reusedPath (peer : Peer) (abandoned file : File) : List (Operation × Nat) :=
  [(.join peer, 0), (.request abandoned "p", 0),
    (.deliver abandoned ⟨1, 2, 2⟩ [99, 100] peer, 0),
    (.deliver abandoned ⟨2, 4, 2⟩ [101, 102] peer, 0),
    (.cancel abandoned, 0), (.request file "p", 0),
    (.deliver file ⟨0, 0, 2⟩ [119, 120] peer, 0), (.deliver file ⟨1, 2, 2⟩ [121, 122] peer, 0)]

theorem contents_reusedPath :
    let options : Options := { chunkSize := 2 }
    let file : File := { id := 2, hash := "", size := 4 }
    let events := (History.run (Greedy.ofOptions options).scheduler options ()
      (reusedPath (.ofNat 1) { id := 1, hash := "", size := 6 } file)).events
    ∃ past opening recent, Activation events file "p" past opening recent ∧
      (Steady "p" past opening recent →
        ((onDisk events).tree.contents (.ofText "p") = .ok [119, 120, 121, 122] ↔
          Clean (onDisk past).tree file "p")) := by
  intro options file events
  exact contents_iff_clean (Greedy.ofOptions options).scheduler options ()
    (reusedPath (.ofNat 1) { id := 1, hash := "", size := 6 } file) rfl (by decide +kernel) rfl
    (by decide) (by decide +kernel)

/-- The four bytes are complete with two of the abandoned ones behind them. -/
theorem leftover_reusedPath :
    let options : Options := { chunkSize := 2 }
    let abandoned : File := { id := 1, hash := "", size := 6 }
    let file : File := { id := 2, hash := "", size := 4 }
    let events := (History.run (Greedy.ofOptions options).scheduler options ()
      (reusedPath (.ofNat 1) abandoned file)).events
    (∃ earlier event, events = earlier ++ [event] ∧ .completed file "p" ∈ event.notices) ∧
      abandoned.Fits 2 ∧ Orderly abandoned [97, 98, 99, 100, 101, 102] 2 events ∧
      file.Fits 2 ∧ Orderly file [119, 120, 121, 122] 2 events ∧
      (onDisk events).tree.contents (.ofText "p") = .ok [119, 120, 121, 122, 101, 102] := by
  intro options abandoned file events
  exact ⟨⟨_, _, rfl, by decide +kernel⟩, by decide, by decide +kernel, by decide,
    by decide +kernel, by decide +kernel⟩

end ChunkExchange.Fetch
