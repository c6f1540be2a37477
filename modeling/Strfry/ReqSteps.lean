import Strfry.ReqInvariants

/-!
# What a step does to one thread

Seen from one monitor thread a step adds to its inbox, is its own `pop_all`, or is one of its messages
(`Step.monitor_cases`). What holds along a run in one thread is proved by these cases. `RunWith` is a
run whose steps all satisfy a condition.
-/

set_option autoImplicit false

namespace Strfry

open Lib

namespace Relay

variable {cfg : RelayConfig} {s s' : Relay}

/-- A step seen from the monitor thread `m`. -/
inductive MonitorCase (cfg : RelayConfig) (s : Relay) (act : Action) (s' : Relay) (m : Nat) : Prop
  | other (more : List MsgReqMonitor) (notPop : act ≠ .monitorPop m)
      (notMsg : ∀ msg, act ≠ .monitorMsg m msg)
      (eq : s'.monitors m = { s.monitors m with inbox := (s.monitors m).inbox ++ more })
  | pop (name : act = .monitorPop m) (done : (s.monitors m).newMsgs = [])
      (state : s' = s.setMonitor m
        { s.monitors m with
          inbox := [], newMsgs := (s.monitors m).inbox, txn := s.db.toStore
          currEventId := min (s.monitors m).currEventId s.db.getMostRecentLevId })
  | msg (msg : MsgReqMonitor) (rest : List MsgReqMonitor) (p : MonitorPtr) (step : MonitorStep)
      (name : act = .monitorMsg m msg) (next : (s.monitors m).newMsgs = msg :: rest)
      (unused : (s.monitors m).monitors.monitors.lookup p = none)
      (handled : monitorHandle cfg (s.monitors m).txn p (s.monitors m).monitors
        (s.monitors m).currEventId msg = some step)
      (state : s' = s.afterMonitor m { s.monitors m with newMsgs := rest } step)

theorem monitor_eta (th : ReqMonitor) : { th with inbox := th.inbox ++ [] } = th := by
  rw [List.append_nil]

theorem Step.monitor_cases {act : Action} (hstep : Step cfg s act s') (m : Nat) :
    MonitorCase cfg s act s' m := by
  have hsame : s'.monitors m = s.monitors m →
      s'.monitors m = { s.monitors m with inbox := (s.monitors m).inbox ++ [] } := by
    intro heq
    rw [monitor_eta]
    exact heq
  cases hstep with
  | receive opened => exact .other [] nofun nofun (hsame rfl)
  | ingest next => exact .other [] nofun nofun (hsame (congrFun (monitors_afterIngester ..) m))
  | workerPop idle done ready => exact .other [] nofun nofun (hsame rfl)
  | workerMsg opened next unused handled => exact .other _ nofun nofun (monitors_afterWorker m)
  | workerProcess opened done handled => exact .other _ nofun nofun (monitors_afterWorker m)
  | @monitorPop m' done ready =>
    by_cases hm : m = m'
    · subst hm
      exact .pop rfl done rfl
    · refine .other [] ?_ nofun (hsame (Function.update_of_ne hm _ _))
      rintro ⟨⟩
      exact hm rfl
  | @monitorMsg m' msg rest p step next unused handled =>
    by_cases hm : m = m'
    · subst hm
      exact .msg msg rest p step rfl next unused handled rfl
    · refine .other [] nofun ?_ (hsame (Function.update_of_ne hm _ _))
      rintro msg' ⟨⟩
      exact hm rfl
  | dbChange =>
    by_cases hm : m < cfg.numReqMonitor
    · exact .other [.dbChange] nofun nofun (if_pos hm)
    · exact .other [] nofun nofun (hsame (if_neg hm))
  | commit txn => exact .other [] nofun nofun (hsame rfl)

/-- The log only grows. -/
theorem Step.log_eq {act : Action} (hstep : Step cfg s act s') : ∃ sent, s'.log = s.log ++ sent := by
  have hsame : s'.log = s.log → ∃ sent, s'.log = s.log ++ sent :=
    fun heq => ⟨[], by rw [heq, List.append_nil]⟩
  cases hstep with
  | ingest next => exact ⟨_, log_afterIngester ..⟩
  | workerMsg opened next unused handled => exact ⟨_, log_afterWorker⟩
  | workerProcess opened done handled => exact ⟨_, log_afterWorker⟩
  | monitorMsg next unused handled => exact ⟨_, rfl⟩
  | receive | workerPop | monitorPop | dbChange | commit => exact hsame rfl

/-- Only a commit changes the database. -/
theorem Step.db_eq {act : Action} (hstep : Step cfg s act s') (hact : act ≠ .commit) :
    s'.db = s.db := by
  cases hstep with
  | ingest next => exact db_afterIngester ..
  | workerMsg opened next unused handled => exact db_afterWorker
  | workerProcess opened done handled => exact db_afterWorker
  | commit txn => exact absurd rfl hact
  | receive | workerPop | monitorPop | monitorMsg | dbChange => rfl

/-! ## Runs with a condition -/

/-- A run whose steps all satisfy a condition on the states before and after. -/
inductive RunWith (cfg : RelayConfig) (Q : Relay → Relay → Prop) :
    Relay → List Action → Relay → Prop
  | refl {s : Relay} : RunWith cfg Q s [] s
  | tail {s s' s'' : Relay} {acts : List Action} {act : Action} (run : RunWith cfg Q s acts s')
      (step : Step cfg s' act s'') (ok : Q s' s'') : RunWith cfg Q s (acts ++ [act]) s''

theorem RunWith.run {Q : Relay → Relay → Prop} {acts : List Action} (h : RunWith cfg Q s acts s') :
    Run cfg s acts s' := by
  induction h with
  | refl => exact .refl
  | tail _ hstep _ ih => exact ih.tail hstep

theorem RunWith.reachable {Q : Relay → Relay → Prop} {acts : List Action}
    (h : RunWith cfg Q s acts s') (hreach : Reachable cfg s) : Reachable cfg s' :=
  hreach.trans h.run

end Relay

end Strfry
