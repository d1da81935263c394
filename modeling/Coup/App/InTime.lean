import Coup.App.Settings

/-!
# Whether the settings are written before they are read

A running app finds the settings it needs, so only three events can come too
early: the launch, the listener that opens the main menu, and the opening of
the lobby.  Nothing is stored on a fresh install, so its first launch traps.
-/

namespace Coup

open Coup.Support

/-! ## Traps -/

/-- The screen on top, if the app is running. -/
def App.visible (a : App) : Option ViewController :=
  a.running.bind fun r => r.screens.head?

/-- The setting that an event reads first is there: the mode at a launch, the
effects when the listener opens the main menu, and the email when the lobby is
opened. -/
def InTime (a : App) : AppEvent → Prop
  | .launch => Written a.defaults .mode
  | .screen (.authState _ true) =>
      a.visible = some .login → Written a.defaults .effect
  | .screen (.segue .offline _) =>
      a.visible = some .main → Written a.defaults .email
  | _ => True

/-- The running app finds what it needs. -/
def Prepared (a : App) : Prop :=
  ∀ r, a.running = some r → ∀ key, r.needs key → Written a.defaults key

section Traps

variable {audio : Bool} {d : Defaults} {r : RunningApp}

theorem avoids_guardEvent {α : Type} {p : Prop} [Decidable p]
    {k : Except Fault α} (h : p → Avoids .trap k) :
    Avoids .trap (guardEvent p k) :=
  .ite h fun _ => avoids_error (by decide)

/-- Looking for something that an event is about does not trap. -/
theorem avoids_refused {α : Type} (o : Option α) :
    Avoids .trap (orFault .refused o : Except Fault α) :=
  avoids_orFault_of_ne (by decide)

theorem avoids_present {vc : ViewController}
    (h : ∀ key ∈ vc.loads, Written d key) :
    Avoids .trap (r.present audio d vc) :=
  ((reads_load vc).avoids h).bind fun _ _ => avoids_ok _

theorem present_traps {vc : ViewController} {key : DefaultsKey}
    (hkey : key ∈ vc.loads) (h : ¬ Written d key) :
    r.present audio d vc = .error .trap := by
  unfold RunningApp.present
  rw [(reads_load vc).traps hkey h]
  rfl

theorem avoids_toMain (hmode : Written d .mode)
    (heffect : r.screens.head? = some .login → Written d .effect) :
    Avoids .trap (r.toMain audio d) := by
  apply Avoids.ite
  · intro hlogin
    apply avoids_present
    simpa [ViewController.loads] using ⟨heffect hlogin, hmode⟩
  · intro _
    exact avoids_ok r

/-- A screen that is left of the main menu finds what it reads, unless it is
the lobby. -/
theorem segue_loads {top vc : ViewController}
    (hprepared : Prepared ⟨d, some r⟩) (htop : r.screens.head? = some top)
    (hseg : vc ∈ top.segues)
    (hoffline : vc = .offline → top = .main → Written d .email) :
    ∀ key ∈ vc.loads, Written d key := by
  have hneeds := hprepared r rfl
  have hmode : Written d .mode := hneeds .mode trivial
  have heffect : Written d .effect := by
    apply hneeds .effect (needs_effect_of_head? htop _)
    rintro rfl
    cases hseg
  cases vc with
  | offline =>
      have hmain : top = .main := by
        cases top <;> simp [ViewController.segues] at hseg ⊢
      simpa [ViewController.loads] using ⟨hoffline rfl hmain, hmode⟩
  | main => simpa [ViewController.loads] using ⟨heffect, hmode⟩
  | settings =>
      simpa [ViewController.loads] using ⟨hmode, heffect, hmode⟩
  | login | howToPlay | game | blank | activityLog | exchange | gameEnds =>
      simpa [ViewController.loads] using hmode

/-- The visible screen finds what it reads when it appears. -/
theorem visible_appears {vc : ViewController} (status : String)
    (hprepared : Prepared ⟨d, some r⟩) (htop : r.screens.head? = some vc) :
    ∀ key ∈ vc.appears status, Written d key := by
  have hneeds := hprepared r rfl
  have hmode : Written d .mode := hneeds .mode trivial
  cases vc with
  | main =>
      have heffect := hneeds .effect (needs_effect_of_head? htop (by decide))
      simpa [ViewController.appears] using ⟨heffect, hmode⟩
  | gameEnds =>
      have heffect := hneeds .effect (needs_effect_of_head? htop (by decide))
      intro key hkey
      rcases List.mem_append.mp hkey with h | h
      · obtain ⟨c, -, rfl⟩ := List.mem_map.mp h
        exact heffect
      · exact List.mem_singleton.mp h ▸ hmode
  | login | settings | howToPlay | offline | game | blank | activityLog
    | exchange => simpa [ViewController.appears] using hmode

theorem avoids_signInDone (succeeded : Bool) (email : String) :
    Avoids .trap (signInDone audio succeeded d email r) := by
  apply Avoids.ite
  · intro _
    apply Avoids.bind
    · exact avoids_toMain (written_settings email _)
        fun _ => written_settings email _
    · intro _ _
      exact avoids_ok _
  · intro _
    exact avoids_ok _

/-- The effects have been stored just before they are looked at. -/
theorem avoids_onEffectSegChange (on : Bool) :
    Avoids .trap (onEffectSegChange on audio d r) := by
  apply Avoids.ite
  · intro _
    apply Avoids.ite
    · intro _
      exact avoids_ok _
    · intro _
      apply (reads_playMainSong.avoids _).bind
      · intro _ _
        exact avoids_ok _
      · intro key hkey
        rw [List.mem_singleton.mp hkey]
        exact written_set_self
  · intro _
    exact avoids_ok _

theorem avoids_authStateDidChange (user : Bool) (hmode : Written d .mode)
    (heffect : user = true → r.screens.head? = some .login →
      Written d .effect) :
    Avoids .trap (authStateDidChange audio user d r) := by
  apply Avoids.ite
  · intro huser
    apply (avoids_toMain hmode (heffect huser)).bind
    intro _ _
    exact avoids_ok _
  · intro _
    exact avoids_ok _

/-- An event that comes in time does not trap. -/
theorem stepRunning_avoids (hprepared : Prepared ⟨d, some r⟩)
    {e : ScreenEvent} (htime : InTime ⟨d, some r⟩ (.screen e)) :
    Avoids .trap (stepRunning d r e) := by
  have hneeds := hprepared r rfl
  have hmode : Written d .mode := hneeds .mode trivial
  cases e with
  | appear audio status =>
      apply (avoids_refused _).bind
      intro vc htop
      have hwritten := visible_appears status hprepared (orFault_eq_ok.mp htop)
      apply ((reads_appear status vc).avoids hwritten).bind
      intro _ _
      exact avoids_ok _
  | onSegmentChange | edit | loginButtonPressed =>
      apply avoids_guardEvent
      intro _
      exact avoids_ok _
  | answer k audio succeeded =>
      apply (avoids_refused _).bind
      intro request _
      cases request with
      | signIn email => exact avoids_signInDone succeeded email
      | createUser => exact avoids_ok _
  | authState audio user =>
      apply (avoids_authStateDidChange user hmode _).bind
      · intro _ _
        exact avoids_ok _
      · rintro rfl
        exact htime
  | segue vc audio =>
      apply (avoids_refused _).bind
      intro top htop
      have hfrom := orFault_eq_ok.mp htop
      apply avoids_guardEvent
      intro hseg
      apply (avoids_present (segue_loads hprepared hfrom hseg _)).bind
      · intro _ _
        exact avoids_ok _
      · rintro rfl rfl
        exact htime hfrom
  | dismiss =>
      apply (avoids_refused _).bind
      intro _ _
      apply avoids_guardEvent
      intro _
      exact avoids_ok _
  | done | playAgain | onModeSegChange =>
      apply avoids_guardEvent
      intro _
      exact avoids_ok _
  | onEffectSegChange on audio =>
      apply avoids_guardEvent
      intro _
      exact avoids_onEffectSegChange on
  | drawCell =>
      apply (avoids_refused _).bind
      intro _ _
      apply avoids_guardEvent
      intro _
      apply (reads_isLightModeEnabled.avoids (by simpa using hmode)).bind
      intro _ _
      exact avoids_ok _
  | nameTest =>
      apply avoids_guardEvent
      intro hgame
      have hemail := hneeds .email (.inr hgame)
      apply (reads_getUsername.avoids (by simpa using hemail)).bind
      intro _ _
      exact avoids_ok _
  | sound =>
      apply avoids_guardEvent
      intro hgame
      have heffect := hneeds .effect (.inr hgame)
      apply (reads_playSound.avoids (by simpa using heffect)).bind
      intro _ _
      exact avoids_ok _

/-- The listener reads the effects before anything else. -/
theorem authState_traps {user : Bool} (huser : user = true)
    (hlogin : r.screens.head? = some .login) (h : ¬ Written d .effect) :
    stepRunning d r (.authState audio user) = .error .trap := by
  subst huser
  have hpresent : r.present audio d .main = .error .trap :=
    present_traps (List.mem_cons_self) h
  simp only [stepRunning, authStateDidChange, RunningApp.toMain, if_pos hlogin,
    hpresent, if_true]
  rfl

/-- The lobby reads the email before anything else. -/
theorem segue_offline_traps (hmain : r.screens.head? = some .main)
    (h : ¬ Written d .email) :
    stepRunning d r (.segue .offline audio) = .error .trap := by
  have hpresent : r.present audio d .offline = .error .trap :=
    present_traps (List.mem_cons_self) h
  have hseg : ViewController.offline ∈ ViewController.main.segues := by decide
  simp only [stepRunning, hmain, orFault, bind_ok, guardEvent, if_pos hseg,
    hpresent]
  rfl

/-- An event that comes too early traps. -/
theorem stepRunning_traps {e : ScreenEvent}
    (htime : ¬ InTime ⟨d, some r⟩ (.screen e)) :
    stepRunning d r e = .error .trap := by
  cases e with
  | authState audio user =>
      cases user with
      | false => exact absurd trivial htime
      | true =>
          obtain ⟨hlogin, h⟩ := Classical.not_imp.mp htime
          exact authState_traps rfl hlogin h
  | segue vc audio =>
      cases vc with
      | offline =>
          obtain ⟨hmain, h⟩ := Classical.not_imp.mp htime
          exact segue_offline_traps hmain h
      | _ => exact absurd trivial htime
  | _ => exact absurd trivial htime

theorem reads_launch : Reads d [.mode] (launch d) :=
  (reads_load .login).map fun _ => ⟨_, rfl⟩

/-- A launch traps exactly if the mode has never been stored. -/
theorem launch_traps_iff : launch d = .error .trap ↔ ¬ Written d .mode := by
  constructor
  · intro htrap hmode
    exact reads_launch.avoids (by simpa using hmode) htrap
  · intro h
    exact reads_launch.traps (List.mem_singleton_self _) h

end Traps

/-! ## Runs of the app -/

section Runs

variable {a a' : App} {e : AppEvent} {d : Defaults}

theorem installed_prepared (d : Defaults) : Prepared (App.installed d) := by
  intro r hr
  cases hr

/-- The login screen needs the mode only. -/
theorem needs_init {key : DefaultsKey} (h : RunningApp.init.needs key) :
    key = .mode := by
  cases key with
  | mode => rfl
  | effect => simp [RunningApp.needs, RunningApp.init] at h
  | email => simp [RunningApp.needs, RunningApp.init] at h

/-- A launch that goes through shows the login screen. -/
theorem launch_eq_ok :
    launch d = .ok a ↔ Written d .mode ∧ a = ⟨d, some .init⟩ := by
  have hshows {a : App} (h : launch d = .ok a) : a = ⟨d, some .init⟩ := by
    obtain ⟨r, hload, h⟩ := bind_eq_ok.mp h
    obtain ⟨_, -, hload⟩ := bind_eq_ok.mp hload
    cases hload
    cases h
    rfl
  constructor
  · intro h
    exact ⟨reads_launch.written h _ (List.mem_singleton_self _), hshows h⟩
  · rintro ⟨hmode, rfl⟩
    obtain ⟨a, ha⟩ := reads_launch.returns (by simpa using hmode)
    rw [ha, hshows ha]

/-- A step of the app is a launch, or an event while it is running. -/
theorem stepApp_cases (hstep : stepApp a e = .ok a') :
    (e = .launch ∧ Written a.defaults .mode ∧
        a' = ⟨a.defaults, some .init⟩) ∨
      ∃ r e', a.running = some r ∧ e = .screen e' ∧
        Advances a.defaults r a' := by
  cases e with
  | launch => exact .inl ⟨rfl, launch_eq_ok.mp hstep⟩
  | screen e =>
      obtain ⟨r, hr, hstep⟩ := bind_eq_ok.mp hstep
      exact .inr
        ⟨r, e, orFault_eq_ok.mp hr, rfl, stepRunning_advances e a' hstep⟩

theorem stepApp_prepared (hprepared : Prepared a)
    (hstep : stepApp a e = .ok a') : Prepared a' := by
  intro r' hr' key hneeds
  rcases stepApp_cases hstep with ⟨-, hmode, rfl⟩ | ⟨r, e', hr, -, hadvances⟩
  · cases hr'
    exact needs_init hneeds ▸ hmode
  · rcases hadvances.needs r' hr' key hneeds with h | h
    · exact hadvances.keeps key (hprepared r hr key h)
    · exact h

/-- Whatever is stored stays stored. -/
theorem stepApp_keeps {key : DefaultsKey} (hwritten : Written a.defaults key)
    (hstep : stepApp a e = .ok a') : Written a'.defaults key := by
  rcases stepApp_cases hstep with ⟨-, -, rfl⟩ | ⟨r, e', -, -, hadvances⟩
  · exact hwritten
  · exact hadvances.keeps key hwritten

theorem inTime_of_not_running (d : Defaults) (e : ScreenEvent) :
    InTime ⟨d, none⟩ (.screen e) := by
  unfold InTime
  split
  next heq => cases heq
  next =>
    intro h
    cases h
  next =>
    intro h
    cases h
  next => trivial

/-- A prepared app traps exactly on the events that come too early. -/
theorem stepApp_traps_iff (hprepared : Prepared a) (e : AppEvent) :
    stepApp a e = .error .trap ↔ ¬ InTime a e := by
  obtain ⟨d, running⟩ := a
  cases e with
  | launch => exact launch_traps_iff
  | screen e =>
      cases running with
      | none =>
          have htime := inTime_of_not_running d e
          constructor
          · intro h
            cases h
          · intro h
            exact absurd htime h
      | some r =>
          constructor
          · intro htrap htime
            exact stepRunning_avoids hprepared htime htrap
          · exact stepRunning_traps

/-- With everything stored nothing comes too early. -/
theorem inTime_of_written (h : ∀ key, Written a.defaults key) (e : AppEvent) :
    InTime a e := by
  unfold InTime
  split
  · exact h .mode
  · intro _
    exact h .effect
  · intro _
    exact h .email
  · trivial

/-- A run traps exactly if one of its events comes too early. -/
theorem run_avoids_iff (hprepared : Prepared a) (es : List AppEvent) :
    Avoids .trap (run stepApp a es) ↔
      ∀ pre e post m, es = pre ++ e :: post → run stepApp a pre = .ok m →
        InTime m e := by
  have htraps := run_error_iff (fun _ _ _ => stepApp_prepared)
    (fun _ e h => stepApp_traps_iff h e) hprepared es
  constructor
  · intro havoids pre e post m hes hrun
    by_contra htime
    exact havoids (htraps.mpr ⟨pre, e, post, m, hes, hrun, htime⟩)
  · intro htime htrap
    obtain ⟨pre, e, post, m, hes, hrun, hnot⟩ := htraps.mp htrap
    exact hnot (htime pre e post m hes hrun)

/-- With everything stored at the start no run traps. -/
theorem run_avoids_of_written (h : ∀ key, Written a.defaults key)
    (hprepared : Prepared a) (es : List AppEvent) :
    Avoids .trap (run stepApp a es) := by
  rw [run_avoids_iff hprepared]
  intro pre e post m _ hrun
  apply inTime_of_written
  intro key
  exact run_invariant (I := fun m => Written m.defaults key)
    (fun _ _ _ => stepApp_keeps) hrun (h key)

theorem launched (hmode : Written d .mode) :
    run stepApp (App.installed d) [.launch] = .ok ⟨d, some .init⟩ := by
  have hlaunch : stepApp (App.installed d) .launch = .ok ⟨d, some .init⟩ :=
    launch_eq_ok.mpr ⟨hmode, rfl⟩
  rw [run_cons, hlaunch]
  rfl

/-- If the mode and the effects are stored, a session that is restored after a
launch opens the main menu. -/
theorem restored_session (hmode : Written d .mode)
    (heffect : Written d .effect) :
    ∃ r, r.screens.head? = some .main ∧
      run stepApp (App.installed d) [.launch, .screen (.authState true true)] =
        .ok ⟨d, some r⟩ := by
  obtain ⟨r, hload⟩ : ∃ r, ViewController.load true d .init .main = .ok r :=
    (reads_load .main).returns
      (by simpa [ViewController.loads] using ⟨heffect, hmode⟩)
  obtain ⟨r, hmain, htoMain⟩ : ∃ r, r.screens.head? = some .main ∧
      RunningApp.toMain true d .init = .ok r := by
    have hlogin : RunningApp.init.screens.head? = some .login := rfl
    rw [RunningApp.toMain, if_pos hlogin, RunningApp.present, hload]
    exact ⟨_, rfl, rfl⟩
  have hauth : authStateDidChange true true d .init =
      .ok { r with email := "", password := "" } := by
    rw [authStateDidChange, if_pos rfl, htoMain]
    rfl
  have hstep : stepApp ⟨d, some .init⟩ (.screen (.authState true true)) =
      .ok ⟨d, some { r with email := "", password := "" }⟩ := by
    rw [stepApp, orFault, bind_ok, stepRunning, hauth]
    rfl
  refine ⟨{ r with email := "", password := "" }, hmain,
    run_append_eq_ok.mpr ⟨_, launched hmode, ?_⟩⟩
  rw [run_cons, hstep]
  rfl

/-- If no run traps, then everything has been stored. -/
theorem written_of_run_avoids
    (h : ∀ es, Avoids .trap (run stepApp (App.installed d) es)) :
    ∀ key, Written d key := by
  have htime (pre : List AppEvent) (e : AppEvent) (a : App)
      (hrun : run stepApp (App.installed d) pre = .ok a) : InTime a e :=
    (run_avoids_iff (installed_prepared d) (pre ++ [e])).mp (h _) pre e [] a
      rfl hrun
  have hmode : Written d .mode := htime [] .launch _ rfl
  have heffect : Written d .effect :=
    htime _ (.screen (.authState true true)) _ (launched hmode) rfl
  obtain ⟨r, hmain, hrun⟩ := restored_session hmode heffect
  have hemail : Written d .email :=
    htime _ (.screen (.segue .offline true)) _ hrun hmain
  intro key
  cases key with
  | mode => exact hmode
  | effect => exact heffect
  | email => exact hemail

end Runs

/-! ## The settings are not there in time -/

/-- On a fresh install the first launch traps: the login screen looks at the
mode, and only a sign-in would have stored it. -/
theorem first_launch_traps (es : List AppEvent) :
    run stepApp (App.installed freshInstall) (.launch :: es) =
      .error .trap := by
  have hlaunch : stepApp (App.installed freshInstall) .launch =
      .error .trap :=
    launch_traps_iff.mpr fun h => h rfl
  rw [run_cons, hlaunch]
  rfl

/-- A run traps exactly if an event comes before the setting it reads: the
mode before a launch, the effects before the listener finds a user at the
login screen, or the email before the lobby is opened.  No run does exactly if
all three have been stored, and after a fresh install every launch does. -/
theorem settings_in_time_iff (d : Defaults) :
    (∀ es, Avoids .trap (run stepApp (App.installed d) es) ↔
      ∀ pre e post a, es = pre ++ e :: post →
        run stepApp (App.installed d) pre = .ok a → InTime a e) ∧
    ((∀ es, Avoids .trap (run stepApp (App.installed d) es)) ↔
      ∀ key, Written d key) ∧
    (∀ es, Avoids .trap (run stepApp (App.installed freshInstall) es) ↔
      es.head? ≠ some .launch) := by
  refine ⟨run_avoids_iff (installed_prepared d), ?_, ?_⟩
  · constructor
    · exact written_of_run_avoids
    · intro hwritten
      exact run_avoids_of_written hwritten (installed_prepared d)
  · intro es
    cases es with
    | nil => simp [avoids_ok]
    | cons e es =>
        cases e with
        | launch => simp [Avoids, first_launch_traps es]
        | screen e =>
            -- The app is not running.
            have hrefused : run stepApp (App.installed freshInstall)
                (.screen e :: es) = .error .refused := rfl
            simp [Avoids, hrefused]

/-- The first launch after the installation. -/
theorem fresh_install_traps :
    run stepApp (App.installed freshInstall) [.launch] = .error .trap ∧
      ¬ ∀ es, Avoids .trap (run stepApp (App.installed freshInstall) es) := by
  have htrap := first_launch_traps []
  exact ⟨htrap, fun h => h _ htrap⟩

end Coup
