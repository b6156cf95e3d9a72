import ChunkExchange.Proofs.DownloadKin
import ChunkExchange.Proofs.WaitingChunks

/-! Chunk counts and chunk states in machine words. Counts of chunks, sizes of chunks and numbers of
attempts have 32 bits, sizes of files and offsets have 64. A calculation in words has no result
where it would stop the program or lose a part of its result. -/

namespace ChunkExchange

namespace Words

/-- The greatest number of 32 bits. -/
def countLimit : Nat := 4294967295

/-- A count that grows by one. -/
def increment (count : Nat) : Option Nat :=
  if count < countLimit then some (count + 1) else none

def subtract (minuend subtrahend : Nat) : Option Nat :=
  if subtrahend ≤ minuend then some (minuend - subtrahend) else none

def multiply (first second : Nat) : Option Nat :=
  if first * second ≤ wordLimit then some (first * second) else none

/-- A number that is cut to 32 bits. -/
def narrow (number : Nat) : Option Nat :=
  if number ≤ countLimit then some number else none

def divideUp (dividend divisor : Nat) : Option Nat :=
  if divisor = 0 then none else some ((dividend + divisor - 1) / divisor)

variable {Item State Result : Type} {items : List Item}

/-- The items from a place on, which is not behind the end. -/
def dropTo (items : List Item) (start : Nat) : Option (List Item) :=
  if start ≤ items.length then some (items.drop start) else none

def takeTo (items : List Item) (stop : Nat) : Option (List Item) :=
  if stop ≤ items.length then some (items.take stop) else none

/-- The items without the one at a place. -/
def removeAt (items : List Item) (place : Nat) : Option (List Item) :=
  if place < items.length then some (items.eraseIdx place) else none

variable {first second count minuend subtrahend number place : Nat}

theorem increment_eq (room : count < countLimit) : increment count = some (count + 1) :=
  if_pos room

theorem increment_eq_none (full : ¬ count < countLimit) : increment count = none :=
  if_neg full

theorem subtract_eq (enough : subtrahend ≤ minuend) :
    subtract minuend subtrahend = some (minuend - subtrahend) :=
  if_pos enough

theorem narrow_eq (fits : number ≤ countLimit) : narrow number = some number :=
  if_pos fits

theorem multiply_eq (left : first ≤ countLimit) (right : second ≤ countLimit) :
    multiply first second = some (first * second) :=
  if_pos (Nat.le_trans (Nat.mul_le_mul left right) (by decide))

theorem dropTo_eq (inside : place ≤ items.length) : dropTo items place = some (items.drop place) :=
  if_pos inside

theorem takeTo_eq (inside : place ≤ items.length) : takeTo items place = some (items.take place) :=
  if_pos inside

theorem removeAt_eq (inside : place < items.length) :
    removeAt items place = some (items.eraseIdx place) :=
  if_pos inside

theorem mapM_eq {inWords : Item → Option Result} {plain : Item → Result}
    (exact : ∀ item ∈ items, inWords item = some (plain item)) :
    items.mapM inWords = some (items.map plain) := by
  induction items with
  | nil => rfl
  | cons item rest ih =>
    have first := exact item List.mem_cons_self
    have others := ih (fun other listed => exact other (List.mem_cons_of_mem _ listed))
    simp [List.mapM_cons, first, others]

/-- Steps in words follow the plain ones where each keeps what the next one needs. -/
theorem foldlM_eq {inWords : State → Item → Option State} {plain : State → Item → State}
    (fits : List Item → State → Prop)
    (step : ∀ state item rest, fits (item :: rest) state →
      inWords state item = some (plain state item) ∧ fits rest (plain state item))
    (state : State) (items : List Item) (start : fits items state) :
    items.foldlM inWords state = some (items.foldl plain state) := by
  induction items generalizing state with
  | nil => rfl
  | cons item rest ih =>
    obtain ⟨same, next⟩ := step state item rest start
    rw [List.foldlM_cons, same]
    exact ih (plain state item) next

/-- A calculation in words comes to nothing or to what the plain one does. -/
def Agrees (inWords : Option Result) (plain : Result) : Prop :=
  inWords = none ∨ inWords = some plain

section Stops

variable {inWords : State → Item → Option State} {plain : State → Item → State} {state : State}
variable (agrees : ∀ front item back, items = front ++ item :: back →
  Agrees (inWords (front.foldl plain state) item) (plain (front.foldl plain state) item))

include agrees

theorem foldlM_agrees : Agrees (items.foldlM inWords state) (items.foldl plain state) := by
  induction items generalizing state with
  | nil => exact .inr rfl
  | cons item rest ih =>
    rw [List.foldlM_cons, List.foldl_cons]
    rcases agrees [] item rest rfl with stops | goes
    · exact .inl (congrArg (· >>= _) stops)
    · have tail := ih fun front other back split =>
        agrees (item :: front) other back (congrArg (item :: ·) split)
      rw [List.foldl_nil] at goes
      rw [goes]
      exact tail

/-- Steps in words follow the plain ones to the end exactly if none of them stops. -/
theorem foldlM_eq_iff : items.foldlM inWords state = some (items.foldl plain state) ↔
    ∀ front item back, items = front ++ item :: back →
      inWords (front.foldl plain state) item = some (plain (front.foldl plain state) item) := by
  induction items generalizing state with
  | nil => simp
  | cons item rest ih =>
    have tail := ih fun front other back split =>
      agrees (item :: front) other back (congrArg (item :: ·) split)
    rw [List.foldlM_cons, List.foldl_cons]
    constructor
    · intro follows
      rcases agrees [] item rest rfl with stops | goes
      · rw [List.foldl_nil] at stops
        rw [stops] at follows
        cases follows
      · rw [List.foldl_nil] at goes
        rw [goes] at follows
        intro front other back split
        cases front with
        | nil =>
          cases split
          exact goes
        | cons first front =>
          cases split
          exact tail.mp follows front other back rfl
    · intro steps
      have goes := steps [] item rest rfl
      rw [List.foldl_nil] at goes
      rw [goes]
      exact tail.mpr fun front other back split =>
        steps (item :: front) other back (congrArg (item :: ·) split)

end Stops

end Words

open Words (countLimit increment subtract multiply narrow divideUp dropTo takeTo)

namespace File

def chunkCountInWords (file : File) (chunkSize : Nat) : Option Nat := do
  let count ← divideUp file.size chunkSize
  return min count countLimit

/-- The last chunk is as long as what remains of the file. -/
def extentInWords (file : File) (index chunkSize : Nat) : Option Extent := do
  let offset ← multiply index chunkSize
  let remainder := file.size - offset
  let size ← if chunkSize < remainder then some chunkSize else narrow remainder
  return { index, offset, size }

variable {file : File} {chunkSize index : Nat}

theorem chunkCount_le (file : File) (chunkSize : Nat) : file.chunkCount chunkSize ≤ countLimit :=
  Nat.min_le_right _ _

theorem chunkCountInWords_eq (file : File) (positive : 0 < chunkSize) :
    file.chunkCountInWords chunkSize = some (file.chunkCount chunkSize) := by
  simp [chunkCountInWords, divideUp, Nat.ne_of_gt positive, chunkCount, countLimit, chunkLimit]

theorem extentInWords_eq (file : File) (counts : index ≤ countLimit)
    (sizes : chunkSize ≤ countLimit) :
    file.extentInWords index chunkSize = some (file.extent index chunkSize) := by
  unfold extentInWords extent
  rw [Words.multiply_eq counts sizes]
  by_cases whole : chunkSize < file.size - index * chunkSize
  · simp [whole, Nat.min_eq_left (Nat.le_of_lt whole)]
  · have last := Nat.le_of_not_lt whole
    simp [whole, Nat.min_eq_right last, Words.narrow_eq (Nat.le_trans last sizes)]

end File

namespace Coverage

def countInWords (coverage : Coverage) : Option Nat :=
  narrow coverage.states.size

def waitingInWords (coverage : Coverage) : Option Nat := do
  let count ← coverage.countInWords
  let unasked ← subtract count coverage.pending
  subtract unasked coverage.received

def isCompleteInWords (coverage : Coverage) : Option Bool := do
  let count ← coverage.countInWords
  return coverage.received == count

def progressInWords (coverage : Coverage) : Option Float :=
  if coverage.states.size = 0 then some 1
  else do
    let count ← coverage.countInWords
    return Float.ofNat coverage.received / Float.ofNat count

def stateInWords (coverage : Coverage) (index : Nat) : Option (Except Rejection ChunkState) := do
  let count ← coverage.countInWords
  match coverage.states[index]? with
  | some state => return .ok state
  | none => return .error (.outOfRange index count)

/-- Moves a frontier over the arrived chunks. -/
def arrivedEndInWords (states : Array ChunkState) : (span start : Nat) → Option Nat
  | 0, start => some start
  | span + 1, start => do
    let state ← states[start]?
    if state = .received then
      let next ← increment start
      arrivedEndInWords states span next
    else
      return start

/-- The states with that of an existing chunk replaced. -/
def putInWords (coverage : Coverage) (index : Nat) (state : ChunkState) :
    Option (Array ChunkState) :=
  if index < coverage.states.size then some (coverage.states.setIfInBounds index state) else none

def recordInWords (coverage : Coverage) (index : Nat) (current target : ChunkState) :
    Option Coverage :=
  match current, target with
  | .waiting, .pending => do
    let pending ← increment coverage.pending
    let states ← coverage.putInWords index .pending
    return { coverage with states, pending }
  | .pending, .waiting => do
    let pending ← subtract coverage.pending 1
    let states ← coverage.putInWords index .waiting
    return { coverage with states, pending }
  | .pending, .received => do
    let pending ← subtract coverage.pending 1
    let received ← increment coverage.received
    let states ← coverage.putInWords index .received
    let frontier ←
      arrivedEndInWords states (states.size - coverage.frontier) coverage.frontier
    return { states, pending, received, frontier }
  | _, _ => some coverage

def moveInWords (coverage : Coverage) (index : Nat) (target : ChunkState) :
    Option (Except Rejection Coverage) := do
  match ← coverage.stateInWords index with
  | .error refusal => return .error refusal
  | .ok current =>
    if current = target then
      return .ok coverage
    else if current.canBecome target then
      let next ← coverage.recordInWords index current target
      return .ok next
    else
      return .error (.invalidTransition index current target)

/-- The lowest waiting indices, which are looked for from the frontier on. -/
def firstWaitingInWords (coverage : Coverage) (limit : Nat) : Option (List Nat) := do
  let rest ← dropTo coverage.states.toList coverage.frontier
  let waiting := (rest.zipIdx coverage.frontier).filter (fun entry => entry.1 == .waiting)
  (waiting.take limit).mapM (fun entry => narrow entry.2)

variable {coverage next : Coverage} {index : Nat} {states : Array ChunkState}
variable {span start : Nat} {current target : ChunkState}

theorem arrivedEndInWords_eq (inside : start + span ≤ states.size)
    (small : states.size ≤ countLimit) :
    arrivedEndInWords states span start = some (arrivedEnd states span start) := by
  induction span generalizing start with
  | zero => rfl
  | succ span ih =>
    have bound : start < states.size := by omega
    have ahead : start + 1 + span ≤ states.size := by omega
    rw [arrivedEndInWords, arrivedEnd, Array.getElem?_eq_getElem bound]
    by_cases arrived : states[start] = .received
    · simp [arrived, Words.increment_eq (Nat.lt_of_lt_of_le bound small), ih ahead]
    · simp [arrived]

private theorem scan_eq_zipIdx (states : Array ChunkState) (start limit : Nat)
    (rest : List ChunkState) (suffix : states.toList.drop start = rest) :
    scan states rest.length start limit =
      (((rest.zipIdx start).filter (fun entry => entry.1 == .waiting)).take limit).map
        Prod.snd := by
  induction rest generalizing start limit with
  | nil => simp [scan]
  | cons state rest ih =>
    have here : states[start]? = some state := by
      rw [← Array.getElem?_toList, ← Nat.add_zero start, ← List.getElem?_drop, suffix]
      rfl
    have later : states.toList.drop (start + 1) = rest := by
      rw [← List.drop_drop, suffix]
      rfl
    cases limit with
    | zero => rfl
    | succ limit =>
      rw [List.length_cons, scan, here, List.zipIdx_cons]
      by_cases waits : state = .waiting
      · simp [waits, ih _ _ later]
      · simp [waits, ih _ _ later]

/-- The chunks are counted rightly, and there are no more than 32 bits count. -/
structure Small (coverage : Coverage) : Prop where
  counted : coverage.Counted
  small : coverage.count ≤ countLimit

theorem putInWords_eq (present : coverage.isIn index current = true) (target : ChunkState) :
    coverage.putInWords index target = some (coverage.states.setIfInBounds index target) :=
  if_pos (lt_count_of_isIn present)

section Small

variable (small : coverage.Small)

include small

theorem Small.countInWords_eq : coverage.countInWords = some coverage.count :=
  Words.narrow_eq small.small

theorem Small.move (moved : coverage.move index target = .ok next) : next.Small :=
  ⟨small.counted.move moved, by rw [count_move moved]; exact small.small⟩

theorem Small.waitingInWords_eq : coverage.waitingInWords = some coverage.waiting := by
  have whole := small.counted.total
  rw [waitingInWords, small.countInWords_eq]
  simp only [Option.bind_eq_bind, Option.bind_some]
  rw [Words.subtract_eq (by omega), Option.bind_some, Words.subtract_eq (by omega)]
  rfl

theorem Small.isCompleteInWords_eq : coverage.isCompleteInWords = some coverage.isComplete := by
  rw [isCompleteInWords, small.countInWords_eq]
  rfl

theorem Small.progressInWords_eq : coverage.progressInWords = some coverage.progress := by
  unfold progressInWords progress
  rw [small.countInWords_eq]
  by_cases none : coverage.states.size = 0
  · simp [count, none]
  · simp [count, none]

theorem Small.stateInWords_eq (index : Nat) :
    coverage.stateInWords index = some (coverage.state index) := by
  unfold stateInWords state
  rw [small.countInWords_eq]
  cases coverage.states[index]? <;> rfl

theorem Small.recordInWords_eq (present : coverage.isIn index current = true) :
    coverage.recordInWords index current target =
      some (coverage.record index current target) := by
  have limited := small.small
  have whole := small.counted.total
  have counted := count_pos_of_isIn present
  have frontier := small.counted.frontier_le
  cases current with
  | waiting =>
    cases target with
    | pending =>
      -- A waiting chunk is counted, so not all chunks are pending yet.
      rw [← small.counted.waiting_eq] at counted
      rw [recordInWords, Words.increment_eq (by omega), putInWords_eq present]
      rfl
    | waiting | received => rfl
  | pending =>
    rw [← small.counted.pending] at counted
    cases target with
    | waiting =>
      rw [recordInWords, Words.subtract_eq counted, putInWords_eq present]
      rfl
    | received =>
      have size : (coverage.states.setIfInBounds index .received).size = coverage.count := by
        rw [Array.size_setIfInBounds, count]
      rw [recordInWords, Words.subtract_eq counted, Words.increment_eq (by omega),
        putInWords_eq present]
      simp only [Option.bind_eq_bind, Option.bind_some]
      rw [arrivedEndInWords_eq (by omega) (by omega)]
      rfl
    | pending => rfl
  | received => cases target <;> rfl

theorem Small.moveInWords_eq (index : Nat) (target : ChunkState) :
    coverage.moveInWords index target = some (coverage.move index target) := by
  unfold moveInWords Coverage.move
  rw [small.stateInWords_eq]
  cases found : coverage.state index with
  | error refusal => rfl
  | ok current =>
    simp only [Option.bind_eq_bind, Option.bind_some]
    rw [small.recordInWords_eq (isIn_of_state found)]
    by_cases same : current = target
    · simp [same, bind, Except.bind, pure, Except.pure]
    · by_cases legal : current.canBecome target = true
      · simp [same, legal, bind, Except.bind, pure, Except.pure]
      · simp [same, legal, bind, Except.bind, throw, throwThe, MonadExceptOf.throw]

theorem Small.firstWaitingInWords_eq (limit : Nat) :
    coverage.firstWaitingInWords limit = some (coverage.firstWaiting limit) := by
  have inside : coverage.frontier ≤ coverage.states.toList.length := small.counted.frontier_le
  have rest : coverage.count - coverage.frontier =
      (coverage.states.toList.drop coverage.frontier).length := by
    rw [List.length_drop, Array.length_toList, count]
  rw [firstWaitingInWords, Words.dropTo_eq inside, firstWaiting, rest,
    scan_eq_zipIdx _ _ _ _ rfl]
  apply Words.mapM_eq
  rintro ⟨state, index⟩ listed
  have place := List.mem_zipIdx (List.mem_filter.mp (List.mem_of_mem_take listed)).1
  have limited := small.small
  apply Words.narrow_eq
  rw [List.length_drop, Array.length_toList] at place
  rw [count] at limited
  omega

end Small

end Coverage

end ChunkExchange
