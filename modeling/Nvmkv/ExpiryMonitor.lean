import Nvmkv.ExpiryQueue
import Nvmkv.ExpirySparesLive
import Nvmkv.MonitoredPrograms

/-!
# The expiry queue under its mutex

Elsewhere a call that queues an address does so in one step, and a worker that takes a block
waits for one. Here both are taken apart into the statements of `kv_async_expiry.cpp`. A
worker takes the mutex of the scanner and sleeps on its condition variable as long as the
front of the queue is not a full block (`wait_for_trigger`); a call takes the mutex, adds its
address, and wakes all workers when the block at the front is full
(`restart_scanner_if_asleep`), but only when it has added something. All other calls of the
threads are made outside the mutex. Any number of threads run, workers among them, and
sleepers may wake up for no reason.

No wake-up is lost, although a call does not look whether anybody sleeps and a worker does
not wake another one for the next block: while a full block is at the front of the queue,
nobody sleeps but for the moment between a call's entry and its broadcast. The statements do
what the calls do that wait for a full block, and they stop nobody for whom there is one. A
call that is alone comes to its end by them as it does by itself.
-/

namespace Nvmkv

namespace NvmKvAsyncExpiry

/-- What the scanner's mutex lets through: a call on the store, the workers' look at the
queue, and the entry of an address, which tells whether the workers are to be woken. -/
inductive ScannerOp where
  | async (op : AsyncOp)
  | blockReady
  | update (keyLoc : Nat) (hdr : NvmKvHeader)

/-- The answers. -/
abbrev ScannerRes : ScannerOp → Type
  | .async op => AsyncRes op
  | .blockReady => Bool
  | .update _ _ => Bool

/-- Whether a worker need not wait: the queue is not empty, and its front block does not have
less than the limit. -/
def blockReady (maxIovecs : Nat) : List (List NvmIovec) → Bool
  | [] => false
  | block :: _ => !decide (block.length < maxIovecs)

/-- Whether the front block has reached the limit. -/
def frontFull (maxIovecs : Nat) : List (List NvmIovec) → Bool
  | [] => false
  | block :: _ => decide (block.length = maxIovecs)

/-- Whether the open block has an address already (`iovec_present`). -/
def iovecPresent (maxIovecs : Nat) (queue : List (List NvmIovec)) (keyLoc : Nat) : Bool :=
  (BlockQueue.split maxIovecs queue).2.any fun vector => vector.iovLba = keyLoc

/-- Where a thread is: in its program, in a worker's section, or in that of a call. The rest
of its program is kept. -/
inductive Place where
  | running (rest : AsyncM Unit)
  | testing (next : List NvmIovec → AsyncM Unit)
  | waiting (next : List NvmIovec → AsyncM Unit)
  | woken (next : List NvmIovec → AsyncM Unit)
  | taking (next : List NvmIovec → AsyncM Unit)
  | updating (keyLoc : Nat) (hdr : NvmKvHeader) (next : Except NvmErrorCode Unit → AsyncM Unit)
  | restarting (rest : AsyncM Unit)
  | leaving (rest : AsyncM Unit)

/-- The next statement of a program: the taking of a block and the entry of an address start
with the mutex, and other calls are made without it. -/
def statement : (op : AsyncOp) → (AsyncRes op → AsyncM Unit) →
    Instruction Unit ScannerOp ScannerRes Place
  | .popBlock, next => .lock () (.testing next)
  | .store (.updateExpiryQueue keyLoc hdr), next => .lock () (.updating keyLoc hdr next)
  | .store op, next => .call (.async (.store op)) fun answer => .running (next answer)
  | .passTime seconds, next =>
      .call (.async (.passTime seconds)) fun answer => .running (next answer)

/-- The statements (`start_thread`, `update_expiry_queue`). -/
def code {ι : Type} (_ : ι) : Place → Instruction Unit ScannerOp ScannerRes Place
  | .running (.done ()) => .ended
  | .running (.call op next) => statement op next
  | .testing next => .call .blockReady fun ready => if ready then .taking next else .waiting next
  | .waiting next => .wait () (.woken next)
  | .woken next => .lock () (.testing next)
  | .taking next => .call (.async .popBlock) fun block => .leaving (next block)
  | .updating keyLoc hdr next =>
      .call (.update keyLoc hdr) fun restart =>
        if restart then .restarting (next (.ok ())) else .leaving (next (.ok ()))
  | .restarting rest => .broadcast () (.leaving rest)
  | .leaving rest => .unlock () (.running rest)

/-- What a thread at a place has still to do when the calls are made in one step each. -/
def Place.rest : Place → AsyncM Unit
  | .running rest | .restarting rest | .leaving rest => rest
  | .testing next | .waiting next | .woken next | .taking next => .call .popBlock next
  | .updating keyLoc hdr next => .call (.store (.updateExpiryQueue keyLoc hdr)) next

variable {ι : Type} [DecidableEq ι]

/-- Answer what a thread does. -/
def answerScanner (store : NvmKvStore) (calls : ι → AsyncCall) (thread : ι) :
    (op : ScannerOp) → AsyncState ι → Option (ScannerRes op × AsyncState ι)
  | .async op, state => answerAsync store calls thread op state
  | .blockReady, state =>
      some (blockReady store.capabilities.nvmMaxNumIovs state.store.expiryQueue, state)
  | .update keyLoc hdr, state =>
      (answerAsync store calls thread (.store (.updateExpiryQueue keyLoc hdr)) state).map
        fun answered =>
          (!iovecPresent store.capabilities.nvmMaxNumIovs state.store.expiryQueue keyLoc &&
            frontFull store.capabilities.nvmMaxNumIovs answered.2.store.expiryQueue, answered.2)

/-- Threads that are about to start. -/
def startScanner (store : NvmKvStore) (state : AsyncState ι) (calls : ι → AsyncCall) :
    Monitored Unit ι Place (AsyncState ι) :=
  .start state fun thread => .running ((calls thread).program store)

/-- What holds at the places. A worker has the front block to itself while it has the mutex,
and the one who has filled the front block owes the broadcast. -/
def plan (store : NvmKvStore) : MonitorPlan Unit ι Place (AsyncState ι) where
  rank := fun _ => 0
  holds := fun
    | .running _ | .woken _ => ∅
    | _ => {()}
  owes := fun
    | .restarting _ => {()}
    | _ => ∅
  sleeps := fun
    | .woken _ => {()}
    | _ => ∅
  wanted := fun
    | .woken _ => fun state =>
        blockReady store.capabilities.nvmMaxNumIovs state.store.expiryQueue = true
    | _ => fun _ => False
  invariant := fun state =>
    BlockQueue.Filled store.capabilities.nvmMaxNumIovs state.store.expiryQueue
  knows := fun _ => fun
    | .waiting _ => fun state =>
        blockReady store.capabilities.nvmMaxNumIovs state.store.expiryQueue = false
    | .taking _ => fun state =>
        blockReady store.capabilities.nvmMaxNumIovs state.store.expiryQueue = true
    | _ => fun _ => True

section Queue

variable {store : NvmKvStore} {calls : ι → AsyncCall} {thread : ι} {state after : AsyncState ι}

/-- A queue has a block to take exactly when no worker need wait. -/
theorem take_isSome (maxIovecs : Nat) (queue : List (List NvmIovec)) :
    (BlockQueue.take maxIovecs queue).isSome = blockReady maxIovecs queue := by
  cases queue with
  | nil => rfl
  | cons block rest =>
    rw [BlockQueue.take, blockReady]
    by_cases short : block.length < maxIovecs
    · simp [short]
    · simp [short]

/-- Other calls of the store leave the queue alone. -/
theorem answerAsync_queue {op : StoreOp} {answer : StoreRes op}
    (other : ∀ keyLoc hdr, op ≠ .updateExpiryQueue keyLoc hdr)
    (reply : answerAsync store calls thread (.store op) state = some (answer, after)) :
    after.store.expiryQueue = state.store.expiryQueue := by
  rw [answerAsync, Option.map_eq_some_iff] at reply
  obtain ⟨⟨given, reached⟩, made, same⟩ := reply
  obtain ⟨rfl, rfl⟩ := Prod.mk.inj same
  have kept : reached.expiryQueue = state.store.expiryQueue := by
    cases op with
    | updateExpiryQueue keyLoc hdr => exact absurd rfl (other keyLoc hdr)
    | never => cases made
    | checkEntry lba =>
      rw [answer] at made
      split_ifs at made
      · obtain ⟨_, rfl⟩ := Prod.mk.inj (Option.some.inj made)
        rfl
      · obtain ⟨_, rfl⟩ := Prod.mk.inj (Option.some.inj made)
        rfl
    | awaitEntry lba =>
      rw [answer] at made
      split_ifs at made
      obtain ⟨_, rfl⟩ := Prod.mk.inj (Option.some.inj made)
      rfl
    | _ =>
      obtain ⟨_, rfl⟩ := Prod.mk.inj (Option.some.inj made)
      rfl
  cases op <;> exact kept

/-- The taking of a block. -/
theorem answerAsync_taken {block : List NvmIovec}
    (reply : answerAsync store calls thread .popBlock state = some (block, after)) :
    state.store.expiryQueue = block :: after.store.expiryQueue := by
  rw [answerAsync_popBlock, Option.map_eq_some_iff] at reply
  obtain ⟨⟨first, rest⟩, taken, same⟩ := reply
  obtain ⟨rfl, rfl⟩ := Prod.mk.inj same
  exact (BlockQueue.take_eq taken).1

/-- The entry of an address is answered at once. -/
theorem answerScanner_update {keyLoc : Nat} {hdr : NvmKvHeader} {restart : Bool}
    (reply : answerScanner store calls thread (.update keyLoc hdr) state = some (restart, after)) :
    answerAsync store calls thread (.store (.updateExpiryQueue keyLoc hdr)) state =
        some (.ok (), after) ∧
      after.store.expiryQueue =
        updateExpiryQueue store.capabilities state.store.expiryQueue keyLoc hdr ∧
      restart = (!iovecPresent store.capabilities.nvmMaxNumIovs state.store.expiryQueue keyLoc &&
        frontFull store.capabilities.nvmMaxNumIovs after.store.expiryQueue) := by
  obtain ⟨rfl, rfl⟩ := Prod.mk.inj (Option.some.inj reply)
  exact ⟨rfl, rfl, rfl⟩

/-- The queue after an address was added is as well filled as before. -/
theorem filled_update {queue : List (List NvmIovec)} {keyLoc : Nat} {hdr : NvmKvHeader}
    (positive : 0 < store.capabilities.nvmMaxNumIovs)
    (filled : BlockQueue.Filled store.capabilities.nvmMaxNumIovs queue) :
    BlockQueue.Filled store.capabilities.nvmMaxNumIovs
      (updateExpiryQueue store.capabilities queue keyLoc hdr) := by
  by_cases present : (BlockQueue.split store.capabilities.nvmMaxNumIovs queue).2.any
      fun vector => vector.iovLba = keyLoc
  · rw [updateExpiryQueue_present present]
    exact filled
  · rw [updateExpiryQueue_absent present]
    exact filled.put positive _

/-- A call that makes a block ready has added its address and filled the front block, so that
it wakes the workers. -/
theorem update_restarts {queue : List (List NvmIovec)} {keyLoc : Nat} {hdr : NvmKvHeader}
    (positive : 0 < store.capabilities.nvmMaxNumIovs)
    (filled : BlockQueue.Filled store.capabilities.nvmMaxNumIovs queue)
    (before : ¬blockReady store.capabilities.nvmMaxNumIovs queue = true)
    (now : blockReady store.capabilities.nvmMaxNumIovs
      (updateExpiryQueue store.capabilities queue keyLoc hdr) = true) :
    (!iovecPresent store.capabilities.nvmMaxNumIovs queue keyLoc &&
      frontFull store.capabilities.nvmMaxNumIovs
        (updateExpiryQueue store.capabilities queue keyLoc hdr)) = true := by
  have absent : iovecPresent store.capabilities.nvmMaxNumIovs queue keyLoc = false := by
    rw [Bool.eq_false_iff]
    intro present
    rw [updateExpiryQueue_present present] at now
    exact before now
  have kept := @filled_update store queue keyLoc hdr positive filled
  rw [absent, Bool.not_false, Bool.true_and]
  cases reached : updateExpiryQueue store.capabilities queue keyLoc hdr with
  | nil =>
    rw [reached] at now
    cases now
  | cons block rest =>
    rw [reached] at now kept
    have bounded := (kept.sized block List.mem_cons_self).2
    simp only [blockReady, Bool.not_eq_true', decide_eq_false_iff_not] at now
    simp only [frontFull, decide_eq_true_eq]
    omega

end Queue

section Obeys

variable {store : NvmKvStore} {calls : ι → AsyncCall} {thread : ι} {place next : Place}
  {before after : AsyncState ι}

omit [DecidableEq ι] in
/-- What a thread knows with the mutex, others do not know of the same queue. -/
theorem knows_apart (apart : () ∉ (plan (ι := ι) store).holds place) :
    (plan store).knows thread place after := by
  cases place with
  | running rest => exact trivial
  | woken next => exact trivial
  | _ => exact (apart rfl).elim

omit [DecidableEq ι] in
/-- A call that leaves the queue alone brings nothing about and takes nothing away. -/
theorem allows_same (same : after.store.expiryQueue = before.store.expiryQueue)
    (filled : (plan store).invariant before)
    (holds : (plan (ι := ι) store).holds next = (plan (ι := ι) store).holds place)
    (owes : (plan (ι := ι) store).owes place ⊆ (plan (ι := ι) store).owes next)
    (knows : (plan store).knows thread next after) :
    (plan store).Allows thread place next before after where
  holds := holds
  owes := owes
  invariant := by
    simp only [plan, same]
    exact filled
  knows := knows
  raised := by
    intro mutex elsewhere sleeps wanted unwanted
    refine (unwanted ?_).elim
    cases elsewhere with
    | woken next =>
      simp only [plan, same] at wanted
      exact wanted
    | _ => exact wanted
  others := by
    intro other differ elsewhere apart known
    cases elsewhere with
    | waiting next =>
      simp only [plan, same]
      exact known
    | taking next =>
      simp only [plan, same]
      exact known
    | _ => exact known

omit [DecidableEq ι] in
/-- A call with the mutex may change the queue when it owes the broadcast for what it
brings about. -/
theorem allows_inside (inside : (plan (ι := ι) store).holds place = {()})
    (filled : (plan store).invariant after)
    (holds : (plan (ι := ι) store).holds next = (plan (ι := ι) store).holds place)
    (owes : (plan (ι := ι) store).owes place ⊆ (plan (ι := ι) store).owes next)
    (knows : (plan store).knows thread next after)
    (raised : blockReady store.capabilities.nvmMaxNumIovs after.store.expiryQueue = true →
      ¬blockReady store.capabilities.nvmMaxNumIovs before.store.expiryQueue = true →
        () ∈ (plan (ι := ι) store).owes next) :
    (plan store).Allows thread place next before after where
  holds := holds
  owes := owes
  invariant := filled
  knows := knows
  raised := by
    intro mutex elsewhere sleeps wanted unwanted
    cases elsewhere with
    | woken next =>
      rw [inside]
      exact ⟨rfl, raised wanted unwanted⟩
    | _ => exact wanted.elim
  others := by
    intro other differ elsewhere apart known
    rw [inside] at apart
    exact knows_apart (apart () rfl)

/-- The next statement of a program keeps the plan. -/
theorem statement_obeys {op : AsyncOp} {rest : AsyncRes op → AsyncM Unit} :
    (plan store).Obeys (answerScanner store calls) thread (.running (.call op rest))
      (statement op rest) := by
  have outside : ∀ op (rest : AsyncRes op → AsyncM Unit),
      (∀ before answer after, answerAsync store calls thread op before = some (answer, after) →
        after.store.expiryQueue = before.store.expiryQueue) →
      (plan store).Obeys (answerScanner store calls) thread (.running (.call op rest))
        (.call (.async op) fun answer => .running (rest answer)) := by
    intro op rest quiet before answer after filled known reply
    exact allows_same (quiet before answer after reply) filled rfl (fun _ owes => owes) trivial
  have enters : ∀ inside : Place, (plan (ι := ι) store).holds inside = {()} →
      (plan (ι := ι) store).owes inside = ∅ →
      (∀ world, (plan store).knows thread inside world) →
      (plan store).Obeys (answerScanner store calls) thread (.running (.call op rest))
        (.lock () inside : Instruction Unit ScannerOp ScannerRes Place) := by
    intro inside holds owes known
    refine ⟨fun held absent => absent.elim, ?_, ?_, fun world _ _ => known world⟩
    · rw [holds]
      exact (insert_empty_eq ()).symm
    · rw [owes]
      exact fun _ owed => owed
  cases op with
  | popBlock => exact enters _ rfl rfl fun _ => trivial
  | passTime seconds =>
    refine outside (.passTime seconds) rest ?_
    intro before answer after reply
    obtain ⟨_, rfl⟩ := Prod.mk.inj (Option.some.inj reply)
    rfl
  | store op =>
    cases op with
    | updateExpiryQueue keyLoc hdr => exact enters _ rfl rfl fun _ => trivial
    | _ =>
      exact outside (.store _) rest fun before answer after reply =>
        answerAsync_queue (fun _ _ same => by cases same) reply

/-- Every statement keeps the plan. -/
theorem code_obeys (positive : 0 < store.capabilities.nvmMaxNumIovs) (thread : ι) (place : Place) :
    (plan store).Obeys (answerScanner store calls) thread place (code thread place) := by
  cases place with
  | running rest =>
    cases rest with
    | done result => exact rfl
    | call op next => exact statement_obeys
  | testing next =>
    intro before ready after filled known reply
    obtain ⟨rfl, rfl⟩ := Prod.mk.inj (Option.some.inj reply)
    cases ready : blockReady store.capabilities.nvmMaxNumIovs before.store.expiryQueue with
    | true => exact allows_same rfl filled rfl (fun _ owes => owes) ready
    | false => exact allows_same rfl filled rfl (fun _ owes => owes) ready
  | waiting next =>
    refine ⟨rfl, fun owes => owes, rfl, rfl, fun _ _ _ => trivial, ?_⟩
    intro world filled unready wanted
    exact Bool.false_ne_true (Eq.trans (Eq.symm unready) wanted)
  | woken next =>
    exact ⟨fun held absent => absent.elim, (insert_empty_eq ()).symm, fun _ owes => owes,
      fun _ _ _ => trivial⟩
  | taking next =>
    intro before block after filled ready reply
    have taken := @answerAsync_taken _ _ _ calls _ _ _ _ reply
    have kept : BlockQueue.Filled store.capabilities.nvmMaxNumIovs
        (block :: after.store.expiryQueue) := taken ▸ filled
    refine allows_inside rfl kept.tail rfl (fun _ owes => owes) trivial ?_
    intro _ unready
    exact absurd ready unready
  | updating keyLoc hdr next =>
    intro before restart after filled known reply
    obtain ⟨_, queue, restarts⟩ := answerScanner_update reply
    have kept : (plan store).invariant after := by
      simp only [plan, queue]
      exact filled_update positive filled
    have owes : blockReady store.capabilities.nvmMaxNumIovs after.store.expiryQueue = true →
        ¬blockReady store.capabilities.nvmMaxNumIovs before.store.expiryQueue = true →
          restart = true := by
      intro now unready
      rw [restarts, queue]
      rw [queue] at now
      exact update_restarts positive filled unready now
    cases restart with
    | true => exact allows_inside rfl kept rfl (fun _ owes => owes.elim) trivial fun _ _ => rfl
    | false =>
      refine allows_inside rfl kept rfl (fun _ owes => owes) trivial ?_
      intro now unready
      cases owes now unready
  | restarting rest =>
    exact ⟨rfl, fun _ owes => (owes.2 rfl).elim, fun _ _ _ => trivial⟩
  | leaving rest =>
    refine ⟨rfl, fun owes => owes, ?_, fun _ owes => owes, fun _ _ _ => trivial⟩
    exact (Set.sdiff_self : ({()} : Set Unit) \ {()} = ∅).symm

end Obeys

section Runs

variable {store : NvmKvStore} {calls : ι → AsyncCall}

/-- A worker waits for a block exactly while none is ready. -/
theorem popBlock_waits {thread : ι} {state : AsyncState ι}
    (unready : ¬blockReady store.capabilities.nvmMaxNumIovs state.store.expiryQueue = true) :
    answerAsync store calls thread .popBlock state = none := by
  rw [answerAsync_popBlock, Option.map_eq_none_iff, ← Option.not_isSome_iff_eq_none, take_isSome]
  exact unready

/-- The statements do what the calls do that are made in one step each. -/
theorem code_implements :
    Implements (plan store) code (answerScanner store calls)
      (answerAsync store calls) Place.rest where
  passes := by
    intro thread place next passes
    cases place with
    | running rest =>
      cases rest with
      | done result => cases passes
      | call op rest =>
        cases op with
        | popBlock =>
          obtain rfl := Option.some.inj passes
          rfl
        | passTime seconds => cases passes
        | store op =>
          cases op with
          | updateExpiryQueue keyLoc hdr =>
            obtain rfl := Option.some.inj passes
            rfl
          | _ => cases passes
    | testing next => cases passes
    | taking next => cases passes
    | updating keyLoc hdr next => cases passes
    | _ =>
      obtain rfl := Option.some.inj passes
      rfl
  calls := by
    intro thread place op next before answer after here filled known reply
    cases place with
    | running rest =>
      cases rest with
      | done result => cases here
      | call op rest =>
        cases op with
        | popBlock => cases here
        | passTime seconds =>
          cases here
          exact Or.inr ⟨_, rest, answer, rfl, reply, rfl⟩
        | store op =>
          cases op with
          | updateExpiryQueue keyLoc hdr => cases here
          | _ =>
            cases here
            exact Or.inr ⟨_, rest, answer, rfl, reply, rfl⟩
    | testing next =>
      cases here
      obtain ⟨rfl, rfl⟩ := Prod.mk.inj (Option.some.inj reply)
      refine Or.inl ⟨?_, rfl⟩
      dsimp only
      split <;> rfl
    | taking next =>
      cases here
      exact Or.inr ⟨.popBlock, next, answer, rfl, reply, rfl⟩
    | updating keyLoc hdr next =>
      cases here
      refine Or.inr ⟨.store (.updateExpiryQueue keyLoc hdr), next, Except.ok (), rfl,
        (answerScanner_update reply).1, ?_⟩
      dsimp only
      split <;> rfl
    | _ => cases here
  asleep := by
    intro thread place mutex world sleeps filled unready
    cases place with
    | woken next => exact ⟨_, _, rfl, popBlock_waits unready⟩
    | _ => exact sleeps.elim
  unanswered := by
    intro thread place op next world here filled known silent
    cases place with
    | running rest =>
      cases rest with
      | done result => cases here
      | call op rest =>
        cases op with
        | popBlock => cases here
        | passTime seconds => exact ⟨rfl, _, rest, rfl, by cases here; exact silent⟩
        | store op =>
          cases op with
          | updateExpiryQueue keyLoc hdr => cases here
          | _ => exact ⟨rfl, _, rest, rfl, by cases here; exact silent⟩
    | testing next =>
      cases here
      cases silent
    | taking next =>
      cases here
      have ready : blockReady store.capabilities.nvmMaxNumIovs world.store.expiryQueue = true :=
        known
      have waits : answerAsync store calls thread .popBlock world = none := silent
      rw [answerAsync_popBlock, Option.map_eq_none_iff, ← Option.not_isSome_iff_eq_none,
        take_isSome] at waits
      exact absurd ready waits
    | updating keyLoc hdr next =>
      cases here
      cases silent
    | _ => cases here
  ended := by
    intro thread place ended
    cases place with
    | running rest =>
      cases rest with
      | done result => exact ⟨result, rfl⟩
      | call op rest =>
        cases op with
        | store op => cases op <;> cases ended
        | _ => cases ended
    | _ => cases ended

omit [DecidableEq ι] in
/-- At the start nobody is in the monitor. -/
theorem start_sound {state : AsyncState ι}
    (filled : BlockQueue.Filled store.capabilities.nvmMaxNumIovs state.store.expiryQueue) :
    (plan store).Sound (startScanner store state calls) :=
  .start filled (fun _ => rfl) fun _ => trivial

/-- A queue without a full block at the front holds less than a block. -/
theorem unready_short {queue : List (List NvmIovec)}
    (positive : 0 < store.capabilities.nvmMaxNumIovs)
    (filled : BlockQueue.Filled store.capabilities.nvmMaxNumIovs queue)
    (unready : ¬blockReady store.capabilities.nvmMaxNumIovs queue = true) :
    queue.flatten.length < store.capabilities.nvmMaxNumIovs := by
  cases queue with
  | nil => exact positive
  | cons block rest =>
    simp only [blockReady, Bool.not_eq_true', decide_eq_false_iff_not, Decidable.not_not]
      at unready
    cases rest with
    | nil => simpa using unready
    | cons next further =>
      have full := filled.full block List.mem_cons_self
      omega

/-- In every interleaving of calls, workers and clocks that share the queue under its mutex:
what is reached is reached by the calls that are made in one step each; while the mutex is
free, nobody sleeps next to a full block; and when no thread can move any more, none can move
on the machine without the mutex, and if somebody still waits for a block then less than a
block is queued. -/
theorem expiry_wake_ups (store : NvmKvStore) (calls : ι → AsyncCall)
    (positive : 0 < store.capabilities.nvmMaxNumIovs) {state : AsyncState ι}
    (filled : BlockQueue.Filled store.capabilities.nvmMaxNumIovs state.store.expiryQueue)
    {reached : Monitored Unit ι Place (AsyncState ι)}
    (run : Monitored.Reachable code (answerScanner store calls)
      (startScanner store state calls) reached) :
    Config.Reachable (answerAsync store calls) (fun _ _ _ => True)
        (startAsync store state calls) (reached.programs Place.rest) ∧
      (reached.owner () = none → ∀ thread, reached.asleep thread = some () →
        answerAsync store calls thread .popBlock reached.world = none) ∧
      (Monitored.Still code (answerScanner store calls) reached →
        (∀ config, ¬Config.Step (answerAsync store calls) (fun _ _ _ => True)
          (reached.programs Place.rest) config) ∧
        ∀ thread next, (reached.place thread).rest = .call .popBlock next →
          reached.world.store.expiryQueue.flatten.length < store.capabilities.nvmMaxNumIovs) := by
  have obeys := fun thread place => @code_obeys _ _ _ calls positive thread place
  have start := @start_sound _ _ calls _ filled
  have sound := start.reachable obeys run
  have implements := @code_implements _ _ store calls
  refine ⟨implements.reachable obeys start run, ?_, ?_⟩
  · intro free thread sleeps
    have rests := (sound.sleeping thread () sleeps).1
    have unwanted := sound.none_missed free sleeps
    cases place : reached.place thread with
    | woken next =>
      rw [place] at unwanted
      exact popBlock_waits unwanted
    | _ =>
      rw [place] at rests
      exact rests.elim
  · intro still
    refine ⟨implements.still_programs obeys sound still, ?_⟩
    intro thread next waiting
    rcases implements.still obeys sound still thread with ⟨_, _, pending, silent⟩ | ⟨_, ended⟩
    · cases waiting.symm.trans pending
      refine unready_short positive sound.invariant ?_
      rw [answerAsync_popBlock, Option.map_eq_none_iff, ← Option.not_isSome_iff_eq_none,
        take_isSome] at silent
      exact silent
    · cases waiting.symm.trans ended

/-- A worker that has the mutex and is about to look at the queue. -/
def looking (state : Monitored Unit ι Place (AsyncState ι)) (thread : ι)
    (next : List NvmIovec → AsyncM Unit) : Monitored Unit ι Place (AsyncState ι) :=
  (state.gives () (some thread)).goes thread (.testing next)

/-- The worker, asleep because it has found no block. -/
def unlucky (state : Monitored Unit ι Place (AsyncState ι)) (thread : ι)
    (next : List NvmIovec → AsyncM Unit) : Monitored Unit ι Place (AsyncState ι) :=
  (((((looking state thread next).goes thread (.waiting next)).gives () none).sleeps thread
    ()).goes thread (.woken next))

/-- A worker that finds the mutex free and no block ready falls asleep. -/
theorem falls_asleep {state : Monitored Unit ι Place (AsyncState ι)} {thread : ι}
    {next : List NvmIovec → AsyncM Unit} (free : state.owner () = none)
    (awake : state.asleep thread = none)
    (here : state.place thread = .running (.call .popBlock next))
    (unready : blockReady store.capabilities.nvmMaxNumIovs state.world.store.expiryQueue = false) :
    Monitored.Reachable code (answerScanner store calls) state (unlucky state thread next) := by
  have locked : Monitored.Moves code (answerScanner store calls) thread state
      (looking state thread next) := .locked awake (by rw [here]; rfl) free
  have tested : Monitored.Moves code (answerScanner store calls) thread
      (looking state thread next) ((looking state thread next).goes thread (.waiting next)) := by
    have still : (looking state thread next).asleep thread = none := awake
    have place : code thread ((looking state thread next).place thread) =
        .call .blockReady fun ready => if ready then .taking next else .waiting next := by
      rw [looking, Monitored.goes_self]
      rfl
    have reply : answerScanner store calls thread .blockReady (looking state thread next).world =
        some (false, state.world) := congrArg (fun ready => some (ready, state.world)) unready
    exact .answered still place reply
  have waited : Monitored.Moves code (answerScanner store calls) thread
      ((looking state thread next).goes thread (.waiting next)) (unlucky state thread next) := by
    refine .waited awake ?_
    rw [Monitored.goes_self]
    rfl
  exact ((Relation.ReflTransGen.single (.moved locked)).tail (.moved tested)).tail (.moved waited)

/-- A thread has gone on to a place, alone. Nobody has fallen asleep, and the other threads are
where they were. -/
structure GoesOn (store : NvmKvStore) (calls : ι → AsyncCall) (thread : ι)
    (state reached : Monitored Unit ι Place (AsyncState ι)) (place : Place) : Prop where
  run : Monitored.Reachable code (answerScanner store calls) state reached
  awake : ∀ other, state.asleep other = none → reached.asleep other = none
  here : reached.place thread = place
  others : ∀ other, other ≠ thread → reached.place other = state.place other

namespace GoesOn

variable {state middle reached : Monitored Unit ι Place (AsyncState ι)} {thread : ι}
  {place next : Place}

/-- It has not moved yet. -/
theorem start (here : state.place thread = place) : GoesOn store calls thread state state place :=
  ⟨.refl, fun _ still => still, here, fun _ _ => rfl⟩

/-- It goes on twice. -/
theorem trans (first : GoesOn store calls thread state middle place)
    (second : GoesOn store calls thread middle reached next) :
    GoesOn store calls thread state reached next :=
  ⟨first.run.trans second.run, fun other still => second.awake other (first.awake other still),
    second.here, fun other differ => (second.others other differ).trans (first.others other differ)⟩

/-- One more statement, which puts nobody to sleep. -/
theorem tail (before : GoesOn store calls thread state middle place)
    (moves : Monitored.Moves code (answerScanner store calls) thread middle reached)
    (awake : ∀ other, middle.asleep other = none → reached.asleep other = none)
    (here : reached.place thread = next) : GoesOn store calls thread state reached next :=
  ⟨before.run.tail (.moved moves), fun other still => awake other (before.awake other still), here,
    fun other differ => (moves.awake.2 other differ).trans (before.others other differ)⟩

/-- The entry of an address by a thread that finds the mutex free: it takes the mutex, adds the
address, wakes the workers when it has filled the front block, and releases the mutex. -/
theorem updating {keyLoc : Nat} {hdr : NvmKvHeader} {next : Except NvmErrorCode Unit → AsyncM Unit}
    {given : Except NvmErrorCode Unit} {after : AsyncState ι} (free : state.owner () = none)
    (awake : state.asleep thread = none)
    (here : state.place thread = .running (.call (.store (.updateExpiryQueue keyLoc hdr)) next))
    (reply : answerAsync store calls thread (.store (.updateExpiryQueue keyLoc hdr)) state.world =
      some (given, after)) :
    ∃ reached, GoesOn store calls thread state reached (.running (next given)) ∧
      reached.world = after ∧ reached.owner () = none := by
  obtain ⟨restart, entered⟩ : ∃ restart, answerScanner store calls thread (.update keyLoc hdr)
      state.world = some (restart, after) := by
    rw [answerScanner, reply]
    exact ⟨_, rfl⟩
  obtain rfl : given = .ok () :=
    congrArg Prod.fst (Option.some.inj (reply.symm.trans (answerScanner_update entered).1))
  have began : GoesOn store calls thread state state _ := start here
  have locked := began.tail (.locked awake (by rw [here]; rfl) free) (fun _ still => still)
    (Monitored.goes_self _ _ _)
  have updated := locked.tail (.answered awake (by rw [Monitored.goes_self]; rfl) entered)
    (fun _ still => still) (Monitored.goes_self _ _ _)
  cases restart with
  | false =>
    have released := updated.tail (.unlocked awake (by rw [updated.here]; rfl))
      (fun _ still => still) (Monitored.goes_self _ _ _)
    exact ⟨_, released, rfl, by rw [Monitored.goes_owner, Monitored.gives_self]⟩
  | true =>
    have wakes : ∀ (among : Monitored Unit ι Place (AsyncState ι)) other,
        among.asleep other = none → (among.wakes ()).asleep other = none := by
      intro among other still
      rw [Monitored.wakes]
      dsimp only
      rw [still, ite_self]
    have woken := updated.tail (.broadcasted awake (by rw [updated.here]; rfl)) (wakes _)
      (Monitored.goes_self _ _ _)
    have released := woken.tail (.unlocked (woken.awake _ awake) (by rw [woken.here]; rfl))
      (fun _ still => still) (Monitored.goes_self _ _ _)
    exact ⟨_, released, rfl, by rw [Monitored.goes_owner, Monitored.gives_self]⟩

/-- A call of the store by a thread that finds the mutex free. -/
theorem answered {op : StoreOp} {next : StoreRes op → AsyncM Unit} {given : StoreRes op}
    {after : AsyncState ι} (free : state.owner () = none) (awake : state.asleep thread = none)
    (here : state.place thread = .running (.call (.store op) next))
    (reply : answerAsync store calls thread (.store op) state.world = some (given, after)) :
    ∃ reached, GoesOn store calls thread state reached (.running (next given)) ∧
      reached.world = after ∧ reached.owner () = none := by
  have outside : code thread (state.place thread) =
      .call (.async (.store op)) (fun answer => .running (next answer)) →
      ∃ reached, GoesOn store calls thread state reached (.running (next given)) ∧
        reached.world = after ∧ reached.owner () = none :=
    fun statement => ⟨_, (start here).tail (.answered awake statement reply) (fun _ still => still)
      (Monitored.goes_self _ _ _), rfl, free⟩
  cases op with
  | updateExpiryQueue keyLoc hdr => exact updating free awake here reply
  | _ => exact outside (by rw [here]; rfl)

/-- A thread that is alone comes to the end of a program of the store when the program does on
the machine without the mutex. Induction follows the program. -/
theorem runs {α : Type} {program : StoreM α} {rest : α → AsyncM Unit} {result : α}
    {after : StoreState ι} (free : state.owner () = none) (awake : state.asleep thread = none)
    (here : state.place thread = .running (onStore program >>= rest))
    (ran : program.run (answer store thread) state.world.store = some (result, after)) :
    ∃ reached, GoesOn store calls thread state reached (.running (rest result)) ∧
      reached.world.store = after ∧ reached.owner () = none := by
  induction program generalizing state with
  | done result =>
    obtain ⟨rfl, rfl⟩ := Prod.mk.inj (Option.some.inj ran)
    exact ⟨state, start here, rfl, free⟩
  | call op next inductionHypothesis =>
    rw [Program.run, Option.bind_eq_some_iff] at ran
    obtain ⟨⟨given, stored⟩, reply, later⟩ := ran
    have noted : answerAsync store calls thread (.store op) state.world =
        some (given, state.world.noted store (calls thread) thread op stored) :=
      congrArg (Option.map _) reply
    obtain ⟨middle, moved, world, released⟩ := answered free awake here noted
    have kept : middle.world.store = stored := by
      rw [world]
      cases op <;> rfl
    obtain ⟨reached, ended, same, unowned⟩ := inductionHypothesis given released
      (moved.awake _ awake) moved.here (by rw [kept]; exact later)
    exact ⟨reached, moved.trans ended, same, unowned⟩

end GoesOn

end Runs

/-- A worker falls asleep. Two calls find an expired pair each, and the second one fills the
block at the front of the queue and wakes the worker. -/
theorem expiry_wake_ups_filled :
    ∃ slept reached : Monitored Unit (Fin 4) Place (AsyncState (Fin 4)),
      Monitored.Reachable code (answerScanner expiringTerabyte lookUpAndPut)
        (startScanner expiringTerabyte expiredPairs lookUpAndPut) slept ∧
      slept.asleep 3 = some () ∧
      Monitored.Reachable code (answerScanner expiringTerabyte lookUpAndPut) slept reached ∧
      reached.world.store.expiryQueue = [[expiredIovec 97, expiredIovec 98]] ∧
      reached.asleep 3 = none := by
  have positive : 0 < expiringTerabyte.capabilities.nvmMaxNumIovs := by decide
  have sleeps := @falls_asleep _ _ expiringTerabyte lookUpAndPut
    (startScanner expiringTerabyte expiredPairs lookUpAndPut) 3 _ rfl rfl rfl rfl
  have asked := run_kvExists expiringTerabyte (0 : Fin 4) expiredPairs.store
    (fun _ => 0) (show keyAccepted expiredPairs.store 0 [97] = true by decide)
  rw [expired_afterLookup expired_first rfl] at asked
  obtain ⟨one, looked, storeOne, freeOne⟩ := @GoesOn.runs _ _ expiringTerabyte lookUpAndPut
    (unlucky (startScanner expiringTerabyte expiredPairs lookUpAndPut) 3 _) 0 _ _ _ _ _ rfl rfl rfl
    asked
  have askedAgain := run_kvExists expiringTerabyte (1 : Fin 4) one.world.store (fun _ => 0)
    (by rw [storeOne]; decide : keyAccepted one.world.store 0 [98] = true)
  rw [expired_afterLookup (by rw [storeOne]; exact expired_second) (by rw [storeOne]; rfl)]
    at askedAgain
  obtain ⟨two, found, storeTwo, freeTwo⟩ := @GoesOn.runs _ _ expiringTerabyte lookUpAndPut one 1 _
    _ _ _ _ freeOne (looked.awake 1 rfl) ((looked.others 1 (by decide)).trans rfl) askedAgain
  have queued : two.world.store.expiryQueue = [[expiredIovec 97, expiredIovec 98]] := by
    rw [storeTwo, storeOne]
    exact expired_queue
  have reached := (sleeps.trans looked.run).trans found.run
  refine ⟨_, two, sleeps, rfl, looked.run.trans found.run, queued, ?_⟩
  cases asleep : two.asleep 3 with
  | none => rfl
  | some _ =>
    have waits := (expiry_wake_ups expiringTerabyte lookUpAndPut positive BlockQueue.Filled.nil
      reached).2.1 freeTwo 3 asleep
    rw [answerAsync, queued] at waits
    cases waits

end NvmKvAsyncExpiry

end Nvmkv
