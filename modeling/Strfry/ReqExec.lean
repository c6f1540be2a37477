import Strfry.ReqThreads

/-!
# Runs that can be executed

A `Move` is a step together with the choices that it leaves open: the addresses of new objects, the
length of a time slice, what is written. `exec` carries a move out, and `execAll_run` says that a list
of moves is a run of the relay. The runs on fixed inputs in the modules that follow are obtained in
this way.
-/

set_option autoImplicit false

namespace Strfry

open Lib

namespace Relay

/-- A step with its choices. -/
inductive Move
  | receive (msg : MsgIngester)
  | ingest (i : Nat)
  | workerPop (w : Nat)
  | workerMsg (w : Nat) (q : QueryPtr) (n : Nat)
  | workerProcess (w n : Nat)
  | monitorPop (m : Nat)
  | monitorMsg (m : Nat) (p : MonitorPtr)
  | dbChange
  | write (evs : List EventToWrite)
  | delete (levIds : List Nat)

/-- What is written has been submitted as JSON. -/
def Move.Valid (cfg : RelayConfig) : Move → Prop
  | .write evs => Submitted cfg.hex evs
  | _ => True

/-- A disconnect of the connection. -/
def isCloseConn (c : Nat) : MsgIngester → Bool
  | .closeConn connId => connId == c
  | .clientMessage _ => false

/-- One move: the name of the step and the state after it. -/
def exec (cfg : RelayConfig) (s : Relay) : Move → Option (Action × Relay)
  | .receive msg =>
    if s.submitted.any (isCloseConn msg.connId) then none
    else some (.receive msg, s.received cfg msg)
  | .ingest i =>
    match s.ingesters i with
    | [] => none
    | (serial, msg) :: rest =>
      some (.ingest i serial msg, s.afterIngester cfg i rest (ingesterForward cfg serial msg))
  | .workerPop w =>
    if (s.workers w).txn.isNone ∧ (s.workers w).newMsgs.length = 0 ∧
        ((s.workers w).inbox.length ≠ 0 ∨ (s.workers w).queries.running ≠ []) then
      some (.workerPop w, s.setWorker w
        { s.workers w with
          inbox := [], newMsgs := (s.workers w).inbox, txn := some s.db.toStore })
    else none
  | .workerMsg w q n =>
    match (s.workers w).txn, (s.workers w).newMsgs with
    | some txn, msg :: rest =>
      if ((s.workers w).queries.queries.lookup q).isNone then
        (workerHandle cfg txn q n (s.workers w).queries msg).map fun step =>
          (.workerMsg w msg, s.afterWorker cfg w { s.workers w with newMsgs := rest } step)
      else none
    | _, _ => none
  | .workerProcess w n =>
    match (s.workers w).txn, (s.workers w).newMsgs with
    | some txn, [] =>
      (Strfry.workerProcess cfg txn n (s.workers w).queries).map fun step =>
        (.workerProcess w, s.afterWorker cfg w { s.workers w with txn := none } step)
    | _, _ => none
  | .monitorPop m =>
    match (s.monitors m).newMsgs, (s.monitors m).inbox with
    | [], _ :: _ =>
      some (.monitorPop m, s.setMonitor m
        { s.monitors m with
          inbox := [], newMsgs := (s.monitors m).inbox, txn := s.db.toStore
          currEventId := min (s.monitors m).currEventId s.db.getMostRecentLevId })
    | _, _ => none
  | .monitorMsg m p =>
    match (s.monitors m).newMsgs with
    | [] => none
    | msg :: rest =>
      if ((s.monitors m).monitors.monitors.lookup p).isNone then
        (monitorHandle cfg (s.monitors m).txn p (s.monitors m).monitors (s.monitors m).currEventId
          msg).map fun step =>
            (.monitorMsg m msg, s.afterMonitor m { s.monitors m with newMsgs := rest } step)
      else none
  | .dbChange => some (.dbChange, s.notified cfg)
  | .write evs =>
    match (writeEvents cfg.S cfg.ord cfg.hex cfg.text {} s.db evs).2 with
    | .error _ => none
    | .ok (db', _) => some (.commit, s.committed db')
  | .delete levIds =>
    match (s.db.deleteEvents cfg.hex cfg.text {} levIds).2 with
    | .error _ => none
    | .ok (db', _) => some (.commit, s.committed db')

/-- A list of moves: the names of the steps and the state at the end. -/
def execAll (cfg : RelayConfig) : List Move → Relay → Option (List Action × Relay)
  | [], s => some ([], s)
  | mv :: mvs, s =>
    match exec cfg s mv with
    | none => none
    | some (act, s') => (execAll cfg mvs s').map fun r => (act :: r.1, r.2)

variable {cfg : RelayConfig} {s s' : Relay}

/-- A move is a step. -/
theorem exec_step {mv : Move} {act : Action} (hv : mv.Valid cfg)
    (h : exec cfg s mv = some (act, s')) : Step cfg s act s' := by
  cases mv with
  | receive msg =>
    rw [exec] at h
    split at h
    · cases h
    · rename_i hany
      cases h
      apply Step.receive
      intro hmem
      exact hany (List.any_eq_true.2 ⟨_, hmem, by simp [isCloseConn]⟩)
  | ingest i =>
    rw [exec] at h
    split at h
    · cases h
    · rename_i hnext
      cases h
      exact Step.ingest hnext
  | workerPop w =>
    rw [exec] at h
    split at h
    · rename_i hready
      cases h
      refine Step.workerPop (Option.isNone_iff_eq_none.1 hready.1)
        (List.length_eq_zero_iff.1 hready.2.1) ?_
      exact hready.2.2.imp_left fun hne hnil => hne (by rw [hnil]; rfl)
    · cases h
  | workerMsg w q n =>
    rw [exec] at h
    split at h
    · rename_i txn msg rest htxn hnext
      split at h
      · rename_i hunused
        obtain ⟨step, hstep, heq⟩ := Option.map_eq_some_iff.1 h
        cases heq
        exact Step.workerMsg htxn hnext (Option.isNone_iff_eq_none.1 hunused) hstep
      · cases h
    · cases h
  | workerProcess w n =>
    rw [exec] at h
    split at h
    · rename_i txn htxn hnext
      obtain ⟨step, hstep, heq⟩ := Option.map_eq_some_iff.1 h
      cases heq
      exact Step.workerProcess htxn hnext hstep
    · cases h
  | monitorPop m =>
    rw [exec] at h
    split at h
    · rename_i hdone hinbox
      cases h
      exact Step.monitorPop hdone (by rw [hinbox]; exact List.cons_ne_nil _ _)
    · cases h
  | monitorMsg m p =>
    rw [exec] at h
    split at h
    · cases h
    · rename_i msg rest hnext
      split at h
      · rename_i hunused
        obtain ⟨step, hstep, heq⟩ := Option.map_eq_some_iff.1 h
        cases heq
        exact Step.monitorMsg hnext (Option.isNone_iff_eq_none.1 hunused) hstep
      · cases h
  | dbChange =>
    cases h
    exact Step.dbChange
  | write evs =>
    rw [exec] at h
    split at h
    · cases h
    · rename_i db' evs' hok
      cases h
      exact Step.commit (.write cfg.S {} hv hok)
  | delete levIds =>
    rw [exec] at h
    split at h
    · cases h
    · rename_i db' n hok
      cases h
      exact Step.commit (.delete {} hok)

theorem Run.trans {s'' : Relay} {acts acts' : List Action} (h : Run cfg s acts s')
    (h' : Run cfg s' acts' s'') : Run cfg s (acts ++ acts') s'' := by
  induction h' with
  | refl =>
    rw [List.append_nil]
    exact h
  | tail _ hstep ih =>
    rw [← List.append_assoc]
    exact ih.tail hstep

/-- A list of moves is a run. -/
theorem execAll_run {mvs : List Move} {acts : List Action} (hv : ∀ mv ∈ mvs, mv.Valid cfg)
    (h : execAll cfg mvs s = some (acts, s')) : Run cfg s acts s' := by
  induction mvs generalizing s acts with
  | nil =>
    cases h
    exact .refl
  | cons mv mvs ih =>
    rw [execAll] at h
    split at h
    · cases h
    · rename_i act s₁ hexec
      obtain ⟨⟨acts', s₂⟩, hrest, heq⟩ := Option.map_eq_some_iff.1 h
      cases heq
      have hstep := exec_step (hv mv List.mem_cons_self) hexec
      exact (Run.refl.tail hstep).trans (ih (fun mv' hmv' => hv mv' (List.mem_cons_of_mem _ hmv')) hrest)

theorem execAll_reachable {mvs : List Move} {acts : List Action} (hv : ∀ mv ∈ mvs, mv.Valid cfg)
    (h : execAll cfg mvs { db := Db.init } = some (acts, s)) : Reachable cfg s :=
  ⟨Db.init, acts, .refl, execAll_run hv h⟩

/-- The name of the step, where it does not depend on the state. -/
def Move.name? : Move → Option Action
  | .receive msg => some (.receive msg)
  | .workerPop w => some (.workerPop w)
  | .workerProcess w _ => some (.workerProcess w)
  | .monitorPop m => some (.monitorPop m)
  | .dbChange => some .dbChange
  | .write _ => some .commit
  | .delete _ => some .commit
  | _ => none

theorem exec_name {mv : Move} {act act' : Action} (hname : mv.name? = some act')
    (h : exec cfg s mv = some (act, s')) : act = act' := by
  cases mv with
  | ingest | workerMsg | monitorMsg => cases hname
  | dbChange =>
    cases hname
    cases h
    rfl
  | workerProcess w n =>
    cases hname
    rw [exec] at h
    split at h
    · obtain ⟨step, -, heq⟩ := Option.map_eq_some_iff.1 h
      cases heq
      rfl
    · cases h
  | receive | workerPop | monitorPop | write | delete =>
    cases hname
    rw [exec] at h
    split at h <;> cases h
    rfl

/-- The thread whose DBChange the step handles. -/
def Action.dbChange? : Action → Option Nat
  | .monitorMsg m .dbChange => some m
  | _ => none

theorem Action.eq_of_dbChange? {act : Action} {m : Nat} (h : act.dbChange? = some m) :
    act = .monitorMsg m .dbChange := by
  unfold dbChange? at h
  split at h
  · cases h
    rfl
  · cases h

/-! ## A small relay -/

/-- A parser that knows the texts of a table. -/
def tableText (table : List (Bytes × Json)) : JsonText where
  fromString s :=
    match table.lookup s with
    | some v => .ok v
    | none => .error .badJson
  toString _ := emptyFilterText

/-- A REQ for the subscription id `a` with the filter. -/
def reqA (filter : String) (v : Json) : Bytes × Json :=
  (ascii ("[\"REQ\",\"a\"," ++ filter ++ "]"),
    .array [.string (ascii "REQ"), .string (ascii "a"), v])

/-- A CLOSE for the subscription id `a`. -/
def closeA : Bytes × Json :=
  (ascii "[\"CLOSE\",\"a\"]", .array [.string (ascii "CLOSE"), .string (ascii "a")])

/-- A relay with one thread in each pool that knows the texts of a table. -/
def small (table : List (Bytes × Json)) (maxSubsPerConnection : Nat) : RelayConfig where
  S := .insertion
  ord := byteOrder
  hex := hexCodec
  text := tableText ((emptyFilterText, .object []) :: table)
  numIngester := 1
  numReqWorker := 1
  numReqMonitor := 1
  maxSubsPerConnection := maxSubsPerConnection
  maxReqFilterSize := 200
  maxFilterLimit := 500

/-- A message of the connection 1. -/
def fromClient (text : Bytes × Json) : MsgIngester :=
  .clientMessage { connId := 1, ipAddr := [], payload := text.1 }

/-- The subscription id `a`. -/
def idA : SubId := .a

/-- A note with the byte `b` as its id, to be written. -/
def noteOf (b : UInt8) : EventToWrite :=
  ⟨repeatedEvent b 9 10 1, [], .pending, 0, 0⟩

theorem submitted_noteOf (bs : List UInt8) : Submitted hexCodec (bs.map noteOf) := by
  intro ev hev
  obtain ⟨b, -, rfl⟩ := List.mem_map.1 hev
  exact ⟨rfl, fromJson_plainEvent _ _ _ _ _ _⟩

/-- A message of the client goes through the ingester and the worker, whose time slices take `n`
iterations. -/
def toWorker (msg : MsgIngester) (q : QueryPtr) (n : Nat) : List Move :=
  [.receive msg, .ingest 0, .workerPop 0, .workerMsg 0 q n, .workerProcess 0 n]

end Relay

end Strfry
