import Strfry.Router

/-!
# Reloading the router config

A load that fails leaves behind what was assigned before the exception. The damage shows at the next
successful load: it compares with the fields that were left behind and may keep connections whose REQ
has another filter (`failed_load_keeps_connection`).

`FailsEarly` is about the file and the router before the load: every value that is assigned before the
exception is the one that is there already. In a run whose failing loads are all of this kind, failing loads
change nothing, and the open connections of a group that asks for events have asked with its current filter
(`early_failures_change_nothing`).
-/

set_option autoImplicit false

namespace Strfry

open Lib

namespace StreamGroup

variable {E : RouterEnv} {timeoutUs : Nat} {clock : GroupClock} {spec : Json} {g g' : StreamGroup}

/-! ## Specs that leave a group as it is -/

/-- Direction and filter of the spec are those of the group. -/
structure SameFilter (E : RouterEnv) (g : StreamGroup) (spec : Json) : Prop where
  dir : readDir spec = .ok g.dir
  filter : readFilter E spec = .ok g.filter
  filterStr : g.filterStr = E.text.toString g.filter
  compiled : NostrFilterGroup.unwrapped E.hex g.filter E.maxFilterLimit = .ok g.filterCompiled

/-- So are the plugins. -/
structure SamePlugins (E : RouterEnv) (g : StreamGroup) (spec : Json) : Prop extends
    SameFilter E g spec where
  down : readPlugin spec "pluginDown" = .ok g.pluginDownCmd
  up : readPlugin spec "pluginUp" = .ok g.pluginUpCmd

/-- So are the urls, and there is no connection to attempt. -/
structure Settled (E : RouterEnv) (timeoutUs : Nat) (clock : GroupClock) (g : StreamGroup)
    (spec : Json) : Prop extends SamePlugins E g spec where
  urls : ∃ vs, spec.find? "urls" = some (.array vs) ∧ readUrls vs = (g.urls, .ok ())
  needed : ∀ url c, g.conns url = some c → url ∈ g.urls
  connected : ∀ i url, g.urls[i]? = some url →
    ∃ c, g.conns url = some c ∧ due timeoutUs (clock i).1 c = false

/-- The spec makes `configure` throw, and what is assigned before is what the group has. -/
inductive FailsEarly (E : RouterEnv) (g : StreamGroup) (spec : Json) : Prop
  | dir {e : Err} (hbad : readDir spec = .error e)
  | filter {e : Err} (hdir : readDir spec = .ok g.dir) (hbad : readFilter E spec = .error e)
  | pluginDown {e : Err} (hsame : SameFilter E g spec) (hdown : g.pluginDownCmd = [])
      (hup : g.pluginUpCmd = []) (hbad : readPlugin spec "pluginDown" = .error e)
  | pluginUp {e : Err} (hsame : SameFilter E g spec)
      (hdown : readPlugin spec "pluginDown" = .ok g.pluginDownCmd) (hup : g.pluginUpCmd = [])
      (hbad : readPlugin spec "pluginUp" = .error e)
  | noUrls (hsame : SamePlugins E g spec) (hbad : spec.find? "urls" = none)
  | urls {e : Err} {v : Json} (hsame : SamePlugins E g spec) (hurls : g.urls = [])
      (hfind : spec.find? "urls" = some v) (hbad : v.getArray = .error e)
  | url {e : Err} {vs : List Json} (hsame : SamePlugins E g spec)
      (hfind : spec.find? "urls" = some (.array vs)) (hbad : readUrls vs = (g.urls, .error e))

theorem configure_of_failsEarly (timeoutUs : Nat) (clock : GroupClock) (h : FailsEarly E g spec) :
    ∃ e, configure E timeoutUs clock spec g = (g, .error e) := by
  cases h with
  | @dir e hbad => exact ⟨e, by simp only [configure, hbad]⟩
  | @filter e hdir hbad => exact ⟨e, by simp only [configure, hdir, hbad]⟩
  | @pluginDown e hsame hdown hup hbad =>
    refine ⟨e, ?_⟩
    simp only [configure, hsame.dir, hsame.filter, hsame.compiled, hbad, ← hsame.filterStr]
    cases g
    subst hdown hup
    rfl
  | @pluginUp e hsame hdown hup hbad =>
    refine ⟨e, ?_⟩
    simp only [configure, hsame.dir, hsame.filter, hsame.compiled, hdown, hbad, ← hsame.filterStr]
    rw [← hup]
  | noUrls hsame hbad =>
    refine ⟨.herr "no urls field", ?_⟩
    simp only [configure, hsame.dir, hsame.filter, hsame.compiled, hsame.down, hsame.up, hbad,
      ← hsame.filterStr]
  | @urls e v hsame hurls hfind hbad =>
    refine ⟨e, ?_⟩
    simp only [configure, hsame.dir, hsame.filter, hsame.compiled, hsame.down, hsame.up, hfind, hbad,
      ← hsame.filterStr]
    rw [← hurls]
  | @url e vs hsame hfind hbad =>
    refine ⟨e, ?_⟩
    simp only [configure, hsame.dir, hsame.filter, hsame.compiled, hsame.down, hsame.up, hfind,
      Json.getArray, hbad, ← hsame.filterStr]

theorem tryConnects_of_connected {conns : Bytes → Option Connection} {urls : List Bytes} {i : Nat}
    (h : ∀ j url, urls[j]? = some url →
      ∃ c, conns url = some c ∧ due timeoutUs (clock (i + j)).1 c = false) :
    tryConnects timeoutUs clock i urls conns = conns := by
  induction urls generalizing i with
  | nil => rfl
  | cons url urls ih =>
    obtain ⟨c, hc, hdue⟩ := h 0 url rfl
    rw [Nat.add_zero] at hdue
    have hsame : Function.update conns url (some c) = conns := by
      rw [← hc]
      exact Function.update_eq_self url conns
    simp only [tryConnects, hc, Option.getD_some, hdue, Bool.false_eq_true, if_false, hsame]
    apply ih
    intro j url' hj
    obtain ⟨c', hc', hdue'⟩ := h (j + 1) url' hj
    exact ⟨c', hc', by rwa [Nat.add_right_comm]⟩

theorem configure_of_settled (h : Settled E timeoutUs clock g spec) :
    configure E timeoutUs clock spec g = (g, .ok ()) := by
  obtain ⟨vs, hfind, hurls⟩ := h.urls
  have hconns : (fun url => if url ∈ g.urls then g.conns url else none) = g.conns := by
    funext url
    split_ifs with hin
    · rfl
    · cases hc : g.conns url with
      | none => rfl
      | some c => exact absurd (h.needed url c hc) hin
  have htry : tryConnects timeoutUs clock 0 g.urls g.conns = g.conns := by
    refine tryConnects_of_connected fun j url hj => ?_
    rw [Nat.zero_add]
    exact h.connected j url hj
  have hsame : (g.dir != g.dir || g.filterStr != g.filterStr) = false := by simp
  simp only [configure, h.dir, h.filter, h.compiled, h.down, h.up, hfind, Json.getArray, hurls,
    hsame, reconnect, Bool.false_eq_true, if_false, hconns, htry, ← h.filterStr]

/-! ## What a group has asked for -/

/-- Every open connection of a group that asks for events has asked with the filter of the group. -/
def Current (E : RouterEnv) (g : StreamGroup) : Prop :=
  g.asks = true → ∀ url c k, g.conns url = some c → c.ws = some k →
    ∃ f, k.req = some f ∧ E.text.toString f = E.text.toString g.filter

/-- The invariant of a group between two reactions. -/
structure Inv (E : RouterEnv) (g : StreamGroup) : Prop where
  filterStr : g.filterStr = E.text.toString g.filter
  current : Current E g

/-- A socket that is open after `tryConnects` was so before. -/
theorem ws_of_tryConnects {conns : Bytes → Option Connection} {urls : List Bytes} {i : Nat} {url : Bytes}
    {c : Connection} {k : Socket} (h : tryConnects timeoutUs clock i urls conns url = some c)
    (hk : c.ws = some k) : ∃ c₀, conns url = some c₀ ∧ c₀.ws = some k := by
  induction urls generalizing i conns with
  | nil => exact ⟨c, h, hk⟩
  | cons u urls ih =>
    obtain ⟨c₁, hc₁, hk₁⟩ := ih h
    by_cases hu : url = u
    · rw [hu, Function.update_self] at hc₁
      have hws : ((conns u).getD {}).ws = some k := by
        rw [← hk₁, ← Option.some.inj hc₁]
        split_ifs <;> rfl
      rw [hu]
      cases hc : conns u with
      | none =>
        rw [hc] at hws
        cases hws
      | some c₀ =>
        rw [hc] at hws
        exact ⟨c₀, rfl, hws⟩
    · rw [Function.update_of_ne hu] at hc₁
      exact ⟨c₁, hc₁, hk₁⟩

/-- What a successful `configure` has read and done. -/
theorem configure_eq_ok (h : configure E timeoutUs clock spec g = (g', .ok ())) :
    ∃ newDir newFilter g₁,
      g' = reconnect timeoutUs clock (newDir != g.dir || E.text.toString newFilter != g.filterStr) g₁ ∧
      g₁.conns = g.conns ∧ g₁.dir = newDir ∧ g₁.filter = newFilter ∧
      g₁.filterStr = E.text.toString newFilter := by
  rw [configure] at h
  split at h
  · cases h
  · rename_i newDir hdir
    simp only at h
    split at h
    · cases h
    · rename_i newFilter hfilter
      split at h
      · cases h
      · split at h
        · cases h
        · split at h
          · cases h
          · split at h
            · cases h
            · split at h
              · cases h
              · split at h
                · cases h
                · cases h
                  exact ⟨newDir, newFilter, _, rfl, rfl, rfl, rfl, rfl⟩

/-- A successful load leaves only connections that have asked with the new filter. -/
theorem inv_of_configure (h : configure E timeoutUs clock spec g = (g', .ok ()))
    (hg : (∀ url, g.conns url = none) ∨ Inv E g) : Inv E g' := by
  obtain ⟨newDir, newFilter, g₁, rfl, hconns, hdir, hfilter, hstr⟩ := configure_eq_ok h
  refine ⟨hstr.trans (congrArg E.text.toString hfilter.symm), ?_⟩
  intro hasks url c k hc hk
  obtain ⟨c₀, hc₀, hk₀⟩ := ws_of_tryConnects hc hk
  cases hre : (newDir != g.dir || E.text.toString newFilter != g.filterStr) with
  | true =>
    rw [hre, if_pos rfl] at hc₀
    cases hc₀
  | false =>
    -- direction and filter are the same, so are the connections that are kept
    rw [Bool.or_eq_false_iff, bne_eq_false_iff_eq, bne_eq_false_iff_eq] at hre
    rw [hre.1, hre.2] at hc₀
    simp only [bne_self_eq_false, Bool.or_self, Bool.false_eq_true, if_false] at hc₀
    split_ifs at hc₀
    rw [hconns] at hc₀
    rcases hg with hnone | hinv
    · rw [hnone] at hc₀
      cases hc₀
    · have hasks₀ : g.asks = true := by
        rw [asks, ← hre.1, ← hdir]
        exact hasks
      obtain ⟨f, hf, heq⟩ := hinv.current hasks₀ url c₀ k hc₀ hk₀
      refine ⟨f, hf, ?_⟩
      show E.text.toString f = E.text.toString g₁.filter
      rw [heq, ← hinv.filterStr, ← hre.2, hfilter]

theorem Inv.connOpen (h : Inv E g) {url : Bytes} {id : Nat} (hopen : g.connOpen url id = some g') :
    Inv E g' := by
  rw [StreamGroup.connOpen] at hopen
  split at hopen
  · cases hopen
    exact h
  · rename_i c hc
    split at hopen
    · cases hopen
      exact h
    · split_ifs at hopen with hasks hobj
      · cases hopen
        refine ⟨h.filterStr, fun _ url' c' k hc' hk => ?_⟩
        simp only [Function.update_apply] at hc'
        split_ifs at hc'
        · cases hc'
          cases hk
          exact ⟨g.filter, rfl, rfl⟩
        · exact h.current hasks url' c' k hc' hk
      · cases hopen
        exact ⟨h.filterStr, fun hyes => absurd hyes hasks⟩

theorem Inv.connClose (h : Inv E g) (url : Bytes) (id : Nat) : Inv E (g.connClose url id) := by
  rw [StreamGroup.connClose]
  split
  · exact h
  · split_ifs
    · refine ⟨h.filterStr, fun hasks url' c' k hc' hk => ?_⟩
      simp only [Function.update_apply] at hc'
      split_ifs at hc'
      · cases hc'
        cases hk
      · exact h.current hasks url' c' k hc' hk
    · exact h

theorem Inv.tryConnects (h : Inv E g) (timeoutUs : Nat) (clock : GroupClock) :
    Inv E { g with conns := StreamGroup.tryConnects timeoutUs clock 0 g.urls g.conns } := by
  refine ⟨h.filterStr, fun hasks url c k hc hk => ?_⟩
  obtain ⟨c₀, hc₀, hk₀⟩ := ws_of_tryConnects hc hk
  exact h.current hasks url c₀ k hc₀ hk₀

end StreamGroup

namespace Router

open StreamGroup

variable {E : RouterEnv} {r r' : Router} {clock : Bytes → GroupClock} {content : Except Err Json}

/-! ## Loads -/

/-- The invariant of every group. -/
def Inv (E : RouterEnv) (groups : Bytes → Option StreamGroup) : Prop :=
  ∀ name g, groups name = some g → StreamGroup.Inv E g

/-- The load fails before it has changed anything: the file or its timeout cannot be read; or the timeout
is the current one, and there are no streams, or all streams before the one that fails are as they are. -/
inductive FailsEarly (E : RouterEnv) (clock : Bytes → GroupClock) (r : Router) : Except Err Json → Prop
  | unreadable (e : Err) : FailsEarly E clock r (.error e)
  | timeout {config : Json} {e : Err} (hbad : readTimeout config = .error e) :
      FailsEarly E clock r (.ok config)
  | streams {config : Json} {e : Err} (htimeout : readTimeout config = .ok r.connectionTimeoutUs)
      (hbad : (config.member "streams" >>= Json.getObject) = .error e) : FailsEarly E clock r (.ok config)
  | stream {config : Json} {before after : List (Bytes × Json)} {name : Bytes} {spec : Json}
      {g : StreamGroup} (htimeout : readTimeout config = .ok r.connectionTimeoutUs)
      (hstreams : (config.member "streams" >>= Json.getObject) = .ok (before ++ (name, spec) :: after))
      (hbefore : ∀ p ∈ before, ∃ g, r.streamGroups p.1 = some g ∧
        g.Settled E r.connectionTimeoutUs (clock p.1) p.2)
      (hgroup : r.streamGroups name = some g) (hbad : g.FailsEarly E spec) :
      FailsEarly E clock r (.ok config)

/-- The loop over streams that are as they are, up to one that fails early. -/
theorem configureAll_of_failsEarly {timeoutUs : Nat} {groups : Bytes → Option StreamGroup}
    {before : List (Bytes × Json)} {name : Bytes} {spec : Json} {g : StreamGroup}
    (hbefore : ∀ p ∈ before, ∃ g, groups p.1 = some g ∧ g.Settled E timeoutUs (clock p.1) p.2)
    (hgroup : groups name = some g) (hbad : g.FailsEarly E spec) (after : List (Bytes × Json)) :
    ∃ e, configureAll E timeoutUs clock (before ++ (name, spec) :: after) groups = (groups, .error e) := by
  induction before with
  | nil =>
    obtain ⟨e, he⟩ := configure_of_failsEarly timeoutUs (clock name) hbad
    refine ⟨e, ?_⟩
    have hsame : Function.update groups name (some g) = groups := by
      rw [← hgroup]
      exact Function.update_eq_self name groups
    simp only [List.nil_append, configureAll, hgroup, Option.getD_some, he, hsame]
  | cons p before ih =>
    obtain ⟨g₀, hg₀, hset⟩ := hbefore p List.mem_cons_self
    obtain ⟨e, he⟩ := ih fun q hq => hbefore q (List.mem_cons_of_mem _ hq)
    refine ⟨e, ?_⟩
    have hsame : Function.update groups p.1 (some g₀) = groups := by
      rw [← hg₀]
      exact Function.update_eq_self p.1 groups
    obtain ⟨name', spec'⟩ := p
    simp only [List.cons_append, configureAll, hg₀, Option.getD_some, configure_of_settled hset, hsame, he]

/-- Such a load fails and changes nothing. -/
theorem reconcileConfig_of_failsEarly (h : FailsEarly E clock r content) :
    ∃ e, r.reconcileConfig E clock content = (r, .error e) := by
  cases h with
  | unreadable e => exact ⟨e, rfl⟩
  | @timeout config e hbad => exact ⟨e, by simp only [reconcileConfig, hbad]⟩
  | @streams config e htimeout hbad => exact ⟨e, by simp only [reconcileConfig, htimeout, hbad]⟩
  | @stream config before after name spec g htimeout hstreams hbefore hgroup hbad =>
    obtain ⟨e, he⟩ := configureAll_of_failsEarly hbefore hgroup hbad after
    exact ⟨e, by simp only [reconcileConfig, htimeout, hstreams, he]⟩

theorem inv_of_configureAll {timeoutUs : Nat} {streams : List (Bytes × Json)}
    {groups groups' : Bytes → Option StreamGroup} (hinv : Inv E groups)
    (h : configureAll E timeoutUs clock streams groups = (groups', .ok ())) : Inv E groups' := by
  induction streams generalizing groups with
  | nil =>
    cases h
    exact hinv
  | cons p streams ih =>
    obtain ⟨name, spec⟩ := p
    rw [configureAll] at h
    split at h
    · cases h
    · rename_i hok
      refine ih ?_ h
      intro name' g hg
      rw [Function.update_apply] at hg
      split_ifs at hg
      · cases hg
        refine inv_of_configure (Prod.ext rfl hok) ?_
        cases hold : groups name with
        | none => exact Or.inl fun _ => rfl
        | some g₀ => exact Or.inr (hinv name g₀ hold)
      · exact hinv name' g hg

/-- A successful load keeps the invariant. -/
theorem inv_of_reconcileConfig (hinv : Inv E r.streamGroups)
    (h : r.reconcileConfig E clock content = (r', .ok ())) : Inv E r'.streamGroups := by
  unfold reconcileConfig at h
  split at h
  · cases h
  · split at h
    · cases h
    · simp only at h
      split at h
      · cases h
      · rename_i streams hstreams
        split at h
        · cases h
        · rename_i hok
          cases h
          have hall := inv_of_configureAll hinv (Prod.ext rfl hok)
          intro name g hg
          simp only at hg
          split_ifs at hg
          exact hall name g hg

/-! ## Runs -/

/-- A reaction in a run: the router before it, what it reacts to, and the router after it. -/
structure Taken where
  before : Router
  act : Action
  after : Router

/-- A router that has loaded its config file once, and any reactions. -/
inductive Run (E : RouterEnv) : List Taken → Router → Prop
  | start {clock : Bytes → GroupClock} {content : Except Err Json} {r : Router}
      (hok : ({} : Router).reconcileConfig E clock content = (r, .ok ())) : Run E [] r
  | tail {steps : List Taken} {r r' : Router} {act : Action} (hrun : Run E steps r)
      (hstep : r.step E act = some r') : Run E (steps ++ [⟨r, act, r'⟩]) r'

/-- The load of the reaction ends in this way. -/
def Taken.Loads (E : RouterEnv) (p : Taken) (clock : Bytes → GroupClock) (content : Except Err Json)
    (res : Except Err Unit) : Prop :=
  p.act = .configFileChange clock content ∧ (p.before.reconcileConfig E clock content).2 = res

/-- Every group is current. -/
def Current (E : RouterEnv) (r : Router) : Prop :=
  ∀ name g, r.streamGroups name = some g → StreamGroup.Current E g

/-- The reaction is as it should be: a load that fails changes nothing, and a load that succeeds leaves
every group current. -/
def Taken.Sound (E : RouterEnv) (p : Taken) : Prop :=
  (∀ clock content e, p.Loads E clock content (.error e) → p.after = p.before) ∧
    ∀ clock content, p.Loads E clock content (.ok ()) → Current E p.after

theorem inv_of_onGroup {name : Bytes} {f : StreamGroup → Option StreamGroup} (hinv : Inv E r.streamGroups)
    (hf : ∀ g g', StreamGroup.Inv E g → f g = some g' → StreamGroup.Inv E g')
    (h : r.onGroup name f = some r') : Inv E r'.streamGroups := by
  rw [onGroup] at h
  split at h
  · cases h
    exact hinv
  · rename_i g hg
    obtain ⟨g', hg', rfl⟩ := Option.map_eq_some_iff.1 h
    intro name' g'' hg''
    simp only [Function.update_apply] at hg''
    split_ifs at hg''
    · cases hg''
      exact hf g g' (hinv name g hg) hg'
    · exact hinv name' g'' hg''

/-- The step lemma. -/
theorem step_sound {act : Action} (hinv : Inv E r.streamGroups) (hstep : r.step E act = some r')
    (hearly : ∀ clock content e, Taken.Loads E ⟨r, act, r'⟩ clock content (.error e) →
      FailsEarly E clock r content) :
    Taken.Sound E ⟨r, act, r'⟩ ∧ Inv E r'.streamGroups := by
  cases act with
  | configFileChange clock content =>
    cases Option.some.inj hstep
    cases hres : (r.reconcileConfig E clock content).2 with
    | error e =>
      obtain ⟨e', he'⟩ := reconcileConfig_of_failsEarly (hearly clock content e ⟨rfl, hres⟩)
      refine ⟨⟨fun _ _ _ _ => congrArg Prod.fst he', ?_⟩, ?_⟩
      · rintro clock' content' ⟨heq, hok⟩
        cases heq
        rw [hres] at hok
        cases hok
      · rw [he']
        exact hinv
    | ok u =>
      have hall := inv_of_reconcileConfig hinv (Prod.ext (y := (_, Except.ok ())) rfl hres)
      refine ⟨⟨?_, fun _ _ _ name g hg => (hall name g hg).current⟩, hall⟩
      rintro clock' content' e ⟨heq, hbad⟩
      cases heq
      rw [hres] at hbad
      cases hbad
  | connection name url id =>
    refine ⟨⟨fun _ _ _ h => absurd h.1 nofun, fun _ _ h => absurd h.1 nofun⟩, ?_⟩
    exact inv_of_onGroup hinv (fun g g' hg hopen => hg.connOpen hopen) hstep
  | disconnection name url id =>
    refine ⟨⟨fun _ _ _ h => absurd h.1 nofun, fun _ _ h => absurd h.1 nofun⟩, ?_⟩
    refine inv_of_onGroup hinv (fun g g' hg hclose => ?_) hstep
    cases hclose
    exact hg.connClose url id
  | reconnectCron clock =>
    refine ⟨⟨fun _ _ _ h => absurd h.1 nofun, fun _ _ h => absurd h.1 nofun⟩, ?_⟩
    cases Option.some.inj hstep
    intro name g hg
    obtain ⟨g₀, hg₀, rfl⟩ := Option.map_eq_some_iff.1 hg
    exact (hinv name g₀ hg₀).tryConnects _ _

/-- In a run whose failing loads all fail early, a failing load changes nothing, and after every successful
load the open connections of the groups that ask for events have asked with the current filter. -/
theorem early_failures_change_nothing {steps : List Taken} (h : Run E steps r)
    (hearly : ∀ p ∈ steps, ∀ clock content e, p.Loads E clock content (.error e) →
      FailsEarly E clock p.before content) :
    (∀ p ∈ steps, p.Sound E) ∧ Current E r := by
  have hall : (∀ p ∈ steps, p.Sound E) ∧ Inv E r.streamGroups := by
    induction h with
    | start hok =>
      refine ⟨nofun, inv_of_reconcileConfig (fun name g hg => ?_) hok⟩
      cases hg
    | tail hrun hstep ih =>
      obtain ⟨hsound, hinv⟩ := ih fun p hp => hearly p (List.mem_append_left _ hp)
      obtain ⟨hlast, hinv'⟩ := step_sound hinv hstep
        (hearly _ (List.mem_append_right _ (List.mem_singleton_self _)))
      refine ⟨fun p hp => ?_, hinv'⟩
      rcases List.mem_append.1 hp with hp | hp
      · exact hsound p hp
      · rw [List.mem_singleton.1 hp]
        exact hlast
  exact ⟨hall.1, fun name g hg => (hall.2 name g hg).current⟩

/-! ## A stream of one relay -/

def kindsText : Bytes := ascii "\x7b\"kinds\":[1]\x7d"

/-- A filter for notes. -/
def kindsOne : Json := .object [(ascii "kinds", .array [.unsigned 1])]

/-- A JSON library that knows this filter and the empty one. -/
def routerText : JsonText where
  fromString s :=
    if s = ascii "\x7b\x7d" then .ok (.object [])
    else if s = kindsText then .ok kindsOne
    else .error .badJson
  toString
    | .object [] => ascii "\x7b\x7d"
    | _ => kindsText

def routerEnv : RouterEnv := ⟨routerText, hexCodec, 500⟩

def relayUrl : Bytes := ascii "wss://nos.lol"

/-- A file with one stream, which goes down and has these further fields. -/
def oneStream (fields : List (Bytes × Json)) : Json :=
  .object [(ascii "streams",
    .object [(ascii "friends", .object ((ascii "dir", .string (ascii "down")) :: fields))])]

def urlsField : Bytes × Json := (ascii "urls", .array [.string relayUrl])

def noon : Bytes → GroupClock := fun _ _ => (1000000000, 1000000000)

/-- The router after its first load and the connection to the relay. -/
def connected : Router :=
  (((({} : Router).reconcileConfig routerEnv noon (.ok (oneStream [urlsField]))).1).step routerEnv
    (.connection (ascii "friends") relayUrl 1)).getD {}

theorem run_connected : Run routerEnv [⟨(({} : Router).reconcileConfig routerEnv noon
    (.ok (oneStream [urlsField]))).1, .connection (ascii "friends") relayUrl 1, connected⟩] connected :=
  .tail (@Run.start routerEnv noon (.ok (oneStream [urlsField])) _ rfl) rfl

/-- A file that is no config file leaves the connection and its filter in place. -/
theorem early_failures_change_nothing_unreadable :
    ∃ steps r, Run routerEnv steps r ∧
      (∃ p ∈ steps, ∃ clock content e, p.Loads routerEnv clock content (.error e)) ∧
      (∀ p ∈ steps, p.Sound routerEnv) ∧ Current routerEnv r := by
  have hrun : Run routerEnv _ _ := run_connected.tail
    (rfl : connected.step routerEnv (.configFileChange noon (.error .badJson)) = some connected)
  refine ⟨_, _, hrun, ⟨_, List.mem_append_right _ (List.mem_singleton_self _), _, _, _, rfl, rfl⟩, ?_⟩
  apply early_failures_change_nothing hrun
  intro p hp clock content e hload
  rcases List.mem_append.1 hp with hp | hp
  · rw [List.mem_singleton.1 hp] at hload
    exact absurd hload.1 nofun
  · rw [List.mem_singleton.1 hp] at hload ⊢
    cases hload.1
    exact .unreadable _

/-- A file with another filter and without urls fails, but its filter stays. The next file has the filter
and the urls; it is loaded, and the connection that has asked with the first filter is kept. -/
theorem failed_load_keeps_connection :
    ∃ steps r, Run routerEnv steps r ∧
      (∃ p ∈ steps, (∃ clock content e, p.Loads routerEnv clock content (.error e)) ∧
        p.after ≠ p.before) ∧
      ∃ p ∈ steps, (∃ clock content, p.Loads routerEnv clock content (.ok ())) ∧
        ¬ Current routerEnv p.after := by
  have hfailed : Run routerEnv _ _ := run_connected.tail (rfl : connected.step routerEnv
    (.configFileChange noon (.ok (oneStream [(ascii "filter", kindsOne)]))) = some _)
  have hloaded := hfailed.tail (rfl : Router.step routerEnv _
    (.configFileChange noon (.ok (oneStream [(ascii "filter", kindsOne), urlsField]))) = some _)
  refine ⟨_, _, hloaded, ⟨_, List.mem_append_left _ (List.mem_append_right _
    (List.mem_singleton_self _)), ⟨_, _, _, rfl, rfl⟩, ?_⟩, _, List.mem_append_right _
    (List.mem_singleton_self _), ⟨_, _, rfl, rfl⟩, ?_⟩
  · intro heq
    have hstr := congrArg (fun r => (r.streamGroups (ascii "friends")).map StreamGroup.filterStr) heq
    exact absurd hstr (by decide +kernel)
  · intro hcur
    obtain ⟨f, hf, heq⟩ := hcur (ascii "friends") _ rfl rfl relayUrl _ _ rfl rfl
    cases hf
    exact absurd heq (by decide +kernel)

end Router

end Strfry
