import ChunkExchange.Backoff
import ChunkExchange.Peer

/-! What is known about which peers can deliver one file. A failure puts a peer aside for a while,
longer each time, until it delivers again. -/

namespace ChunkExchange

/-- Whether a peer can be asked for a file. -/
inductive Availability where
  | available
  | unavailable
  /-- Nothing is known, or the time aside is over. -/
  | expired
deriving DecidableEq, Inhabited

/-- The time for which a peer is put aside. -/
inductive Window where
  | unopened
  /-- Aside up to and including a moment. -/
  | upTo (deadline : Nat)
  | forever
deriving DecidableEq

def Window.isOver (window : Window) (now : Nat) : Bool :=
  match window with
  | .unopened => true
  | .upTo deadline => deadline < now
  | .forever => false

structure Standing where
  delivered : Bool
  episodes : Nat
  window : Window
deriving DecidableEq

namespace Standing

def fresh : Standing :=
  { delivered := false, episodes := 0, window := .unopened }

/-- The most episodes that are counted. -/
def episodeLimit : Nat := 4294967295

def availability (standing : Standing) (now : Nat) : Availability :=
  if standing.delivered then .available
  else if standing.window.isOver now then .expired
  else .unavailable

/-- A delivery ends all episodes. The old window stays on record, where only its end is still
read. -/
def praise (standing : Standing) : Standing :=
  { standing with delivered := true, episodes := 0 }

/-- A failure opens the next window, unless one is still open. -/
def blame (standing : Standing) (backoff : Backoff) (now : Nat) : Standing :=
  if !standing.delivered && !standing.window.isOver now then standing
  else
    let episodes := min (standing.episodes + 1) episodeLimit
    let window := match backoff.delay? (episodes - 1) with
      | some delay => .upTo (now + delay)
      | none => .forever
    { delivered := false, episodes, window }

end Standing

/-- The standings of the peers that were reported on, for one file. -/
structure Reputation where
  backoff : Backoff
  standings : List (Peer × Standing)
deriving DecidableEq

namespace Reputation

def fresh (backoff : Backoff) : Reputation :=
  { backoff, standings := [] }

def standing? (reputation : Reputation) (peer : Peer) : Option Standing :=
  reputation.standings.lookup peer

def size (reputation : Reputation) : Nat :=
  reputation.standings.length

/-- Whether `peer` can be asked at `now`; nothing is known of a peer without a standing. -/
def availability (reputation : Reputation) (peer : Peer) (now : Nat) : Availability :=
  match reputation.standing? peer with
  | some standing => standing.availability now
  | none => .expired

/-- How often `peer` was put aside since it last delivered. -/
def episodes (reputation : Reputation) (peer : Peer) : Nat :=
  match reputation.standing? peer with
  | some standing => standing.episodes
  | none => 0

/-- The end of the latest window of `peer`, where it has one. -/
def expiresAt? (reputation : Reputation) (peer : Peer) : Option Nat :=
  match (reputation.standing? peer).map Standing.window with
  | some (.upTo deadline) => some deadline
  | _ => none

def forget (reputation : Reputation) (peer : Peer) : Reputation :=
  { reputation with
    standings := reputation.standings.filter (fun entry => !(entry.1 == peer)) }

def put (reputation : Reputation) (peer : Peer) (standing : Standing) : Reputation :=
  { reputation with standings := (peer, standing) :: (reputation.forget peer).standings }

/-- Takes a report at `now` that `peer` delivered, or that it failed. -/
def report (reputation : Reputation) (peer : Peer) (delivered : Bool) (now : Nat) : Reputation :=
  let standing := (reputation.standing? peer).getD .fresh
  reputation.put peer
    (if delivered then standing.praise else standing.blame reputation.backoff now)

end Reputation

end ChunkExchange
