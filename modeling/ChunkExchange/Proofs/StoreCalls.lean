import ChunkExchange.Proofs.Overlays
import ChunkExchange.Proofs.PartFile
import ChunkExchange.Proofs.ReadLoop

namespace ChunkExchange

namespace FileTree

variable {tree before after : FileTree} {path : Path} {contents : Bytes}

/-- The file at the place of a path is the same, and it is in reach if it was before. -/
structure Keeps (path : Path) (before after : FileTree) : Prop where
  file : after.fileAt path.place = before.fileAt path.place
  reach : ∀ contents, before.contents path = .ok contents → after.contents path = .ok contents

theorem Keeps.refl (path : Path) (tree : FileTree) : Keeps path tree tree :=
  ⟨rfl, fun _ found => found⟩

theorem fileAt_of_contents (found : tree.contents path = .ok contents) :
    tree.fileAt path.place = some contents :=
  fileAt_eq_some_iff.mpr (get?_place_of_find (contents_eq_ok_iff.mp found))

theorem KeepsDirectories.keeps (keeps : KeepsDirectories before after)
    (same : after.fileAt path.place = before.fileAt path.place) : Keeps path before after := by
  refine ⟨same, ?_⟩
  intro contents found
  have present := fileAt_eq_some_iff.mp (same.trans (fileAt_of_contents found))
  rw [contents_eq_ok_iff] at found ⊢
  obtain ⟨above, name, reached, looked⟩ := find_eq_file_iff.mp found
  exact find_of_approach (approach_of_keepsDirectories keeps reached) (look_eq_ok looked).2 present

end FileTree

namespace PartStore

open FileTree (Outcome Keeps)

/-- A call of the store. What is read comes in such portions. -/
inductive Call where
  | write (path : String) (offset : Nat) (data : Bytes)
  | close (path : String)
  | read (portion : Nat → Nat) (path : String) (offset : Nat) (buffer : Bytes)

namespace Call

def path : Call → String
  | write path _ _ | close path | read _ path _ _ => path

def perform (tree : FileTree) : Call → Outcome
  | write path offset data => PartStore.write tree path offset data
  | close path => PartStore.close tree path
  | read portion path offset buffer =>
    .ofResult tree ((PartStore.read portion tree path offset buffer).map fun _ => tree)

/-- The places of the files that a call may change. -/
def touched : Call → List Location
  | write path _ _ => [partPlace path]
  | close path => [partPlace path, (Path.ofText path).place]
  | read .. => []

/-- No directory is closed. -/
def Safe (tree : FileTree) : Call → Prop
  | close path => tree.find (.ofText (partPath path)) ≠ .ok .directory
  | write .. | read .. => True

instance (tree : FileTree) : (call : Call) → Decidable (call.Safe tree)
  | close path => inferInstanceAs (Decidable (tree.find (.ofText (partPath path)) ≠ .ok .directory))
  | write .. | read .. => .isTrue trivial

end Call

def run (tree : FileTree) : List Call → Outcome
  | [] => { tree, failure := none }
  | call :: rest => (call.perform tree).andThen fun tree => run tree rest

/-- Calls that succeed close no directory. -/
def Safe (tree : FileTree) : List Call → Prop
  | [] => True
  | call :: rest => call.Safe tree ∧ Safe (call.perform tree).tree rest

instance : (tree : FileTree) → (calls : List Call) → Decidable (Safe tree calls)
  | _, [] => .isTrue trivial
  | tree, call :: rest =>
    have := instDecidableSafe (call.perform tree).tree rest
    inferInstanceAs (Decidable (call.Safe tree ∧ Safe (call.perform tree).tree rest))

variable {tree : FileTree} {call : Call} {calls rest : List Call} {target : Path}

namespace Call

theorem read_perform {portion : Nat → Nat} {path : String} {offset : Nat} {buffer : Bytes}
    (succeeds : ((read portion path offset buffer).perform tree).failure = none) :
    ((read portion path offset buffer).perform tree).tree = tree ∧
      ∃ filled, PartStore.read portion tree path offset buffer = .ok filled := by
  simp only [perform] at succeeds ⊢
  cases result : PartStore.read portion tree path offset buffer with
  | error failure =>
    rw [result] at succeeds
    cases succeeds
  | ok filled => exact ⟨rfl, filled, rfl⟩

theorem rooted_perform (rooted : tree.Rooted) (succeeds : (call.perform tree).failure = none) :
    (call.perform tree).tree.Rooted := by
  cases call with
  | write path offset data => exact (write_spec rooted succeeds).1
  | close path => exact (close_spec rooted succeeds).1
  | read portion path offset buffer => rwa [(read_perform succeeds).1]

/-- A call that closes no directory leaves the files alone that it does not touch. -/
theorem keeps_perform (rooted : tree.Rooted) (succeeds : (call.perform tree).failure = none)
    (safe : call.Safe tree) (elsewhere : target.place ∉ call.touched) :
    Keeps target tree (call.perform tree).tree := by
  cases call with
  | write path offset data =>
    obtain ⟨_, keeps, _, others, _⟩ := write_spec rooted succeeds
    exact keeps.keeps (others _ (by simpa [touched] using elsewhere))
  | close path =>
    obtain ⟨part, final⟩ : target.place ≠ partPlace path ∧
        target.place ≠ (Path.ofText path).place := by simpa [touched] using elsewhere
    cases (close_spec rooted succeeds).2 with
    | moved _ _ others keeps => exact keeps.keeps (FileTree.fileAt_of_get? (others _ part final))
    | carried found => exact absurd found safe
    | created _ _ others keeps => exact keeps.keeps (others _ final)
  | read portion path offset buffer =>
    rw [(read_perform succeeds).1]
    exact .refl target tree

end Call

theorem run_append (tree : FileTree) (first second : List Call) :
    run tree (first ++ second) = (run tree first).andThen fun tree => run tree second := by
  induction first generalizing tree with
  | nil => rfl
  | cons call rest ih => simp only [List.cons_append, run, ih, andThen_assoc]

theorem run_append_singleton (succeeds : (run tree (calls ++ [call])).failure = none) :
    (run tree calls).failure = none ∧ (call.perform (run tree calls).tree).failure = none ∧
      (run tree (calls ++ [call])).tree = (call.perform (run tree calls).tree).tree := by
  rw [run_append] at succeeds ⊢
  obtain ⟨earlier, result⟩ := andThen_failure_eq_none succeeds
  rw [result] at succeeds ⊢
  obtain ⟨own, last⟩ := andThen_failure_eq_none succeeds
  refine ⟨earlier, own, ?_⟩
  rw [run, last]
  rfl

theorem rooted_run (rooted : tree.Rooted) (succeeds : (run tree calls).failure = none) :
    (run tree calls).tree.Rooted := by
  induction calls using List.reverseRecOn with
  | nil => exact rooted
  | append_singleton calls call ih =>
    obtain ⟨earlier, own, last⟩ := run_append_singleton succeeds
    rw [last]
    exact Call.rooted_perform (ih earlier) own

theorem safe_append_singleton_iff (succeeds : (run tree calls).failure = none) :
    Safe tree (calls ++ [call]) ↔ Safe tree calls ∧ call.Safe (run tree calls).tree := by
  induction calls generalizing tree with
  | nil => exact and_comm
  | cons first rest ih =>
    obtain ⟨_, later⟩ := andThen_failure_eq_none succeeds
    rw [run, later] at succeeds ⊢
    rw [List.cons_append, Safe, Safe, ih succeeds, and_assoc]

end PartStore

end ChunkExchange
