import Coup.App.Screens

/-!
# What the screens read and what they need

A computation that reads settings returns if they are stored and traps if one
is not.  The list of the settings it reads is given for every screen.  From it
comes the step lemma: no event loses a setting, and what a new screen makes
necessary has been read, so it is stored.
-/

namespace Coup

open Coup.Support

/-! ## Written settings -/

/-- There is something to read under the key. -/
def Written (d : Defaults) (key : DefaultsKey) : Prop := d key ≠ none

instance Written.decidable (d : Defaults) (key : DefaultsKey) :
    Decidable (Written d key) :=
  inferInstanceAs (Decidable (d key ≠ none))

section Written

variable {d : Defaults} {key key' : DefaultsKey} {value : String}

theorem written_set_self : Written (d.set key value) key := by
  simp [Written, Defaults.set]

/-- A setting is never removed. -/
theorem Written.set (h : Written d key') : Written (d.set key value) key' := by
  by_cases hkey : key' = key
  · subst hkey
    exact written_set_self
  · simpa [Written, Defaults.set, hkey] using h

theorem written_settings (email : String) (key : DefaultsKey) :
    Written (initializeSettingsInUserDefaults d email) key := by
  cases key with
  | mode => exact written_set_self.set
  | effect => exact written_set_self
  | email => exact written_set_self.set.set

end Written

/-! ## The settings a computation reads -/

/-- The computation returns if these settings are stored, and traps if one of
them is not. -/
def Reads {α : Type} (d : Defaults) (keys : List DefaultsKey)
    (c : Except Fault α) : Prop :=
  (∃ a, c = .ok a) ∧ (∀ key ∈ keys, Written d key) ∨
    c = .error .trap ∧ ∃ key ∈ keys, ¬ Written d key

section Reads

variable {α β : Type} {d : Defaults} {keys keys' : List DefaultsKey}
  {c : Except Fault α}

theorem Reads.traps (h : Reads d keys c) {key : DefaultsKey} (hkey : key ∈ keys)
    (hnot : ¬ Written d key) : c = .error .trap := by
  rcases h with ⟨-, hwritten⟩ | ⟨htrap, -⟩
  · exact absurd (hwritten key hkey) hnot
  · exact htrap

theorem Reads.returns (h : Reads d keys c)
    (hwritten : ∀ key ∈ keys, Written d key) : ∃ a, c = .ok a := by
  rcases h with ⟨hok, -⟩ | ⟨-, key, hkey, hnot⟩
  · exact hok
  · exact absurd (hwritten key hkey) hnot

theorem Reads.avoids (h : Reads d keys c)
    (hwritten : ∀ key ∈ keys, Written d key) : Avoids .trap c := by
  obtain ⟨a, rfl⟩ := h.returns hwritten
  exact avoids_ok a

theorem Reads.written (h : Reads d keys c) {a : α} (hc : c = .ok a) :
    ∀ key ∈ keys, Written d key := by
  rcases h with ⟨-, hwritten⟩ | ⟨htrap, -⟩
  · exact hwritten
  · rw [htrap] at hc
    cases hc

theorem reads_ok (a : α) : Reads d [] (.ok a) := by
  refine .inl ⟨⟨a, rfl⟩, ?_⟩
  intro key hkey
  cases hkey

/-- A second part reads what it reads knowing that the first one returned. -/
theorem Reads.bind {k : α → Except Fault β} (hc : Reads d keys c)
    (hk : (∀ key ∈ keys, Written d key) → ∀ a, Reads d keys' (k a)) :
    Reads d (keys ++ keys') (c >>= k) := by
  rcases hc with ⟨⟨a, rfl⟩, hwritten⟩ | ⟨rfl, key, hkey, hnot⟩
  · rcases hk hwritten a with ⟨hok, hwritten'⟩ | ⟨htrap, key, hkey, hnot⟩
    · refine .inl ⟨hok, ?_⟩
      intro key hkey
      rcases List.mem_append.mp hkey with h | h
      · exact hwritten key h
      · exact hwritten' key h
    · exact .inr ⟨htrap, key, List.mem_append_right _ hkey, hnot⟩
  · exact .inr ⟨rfl, key, List.mem_append_left _ hkey, hnot⟩

/-- A computation after which nothing is read. -/
theorem Reads.map {k : α → Except Fault β} (hc : Reads d keys c)
    (hk : ∀ a, ∃ b, k a = .ok b) : Reads d keys (c >>= k) := by
  rw [← List.append_nil keys]
  apply hc.bind
  intro _ a
  obtain ⟨b, hb⟩ := hk a
  rw [hb]
  exact reads_ok b

/-- Reading a setting again that is known to be stored does not matter. -/
theorem Reads.again {key : DefaultsKey} (h : Reads d [key] c)
    (hwritten : Written d key) : Reads d [] c := by
  rcases h with ⟨hok, -⟩ | ⟨-, key', hkey', hnot⟩
  · exact .inl ⟨hok, fun _ hkey => absurd hkey List.not_mem_nil⟩
  · cases List.mem_singleton.mp hkey'
    exact absurd hwritten hnot

theorem reads_force (key : DefaultsKey) : Reads d [key] (d.force key) := by
  unfold Defaults.force
  cases h : d key with
  | none => exact .inr ⟨rfl, key, List.mem_singleton_self key, fun h' => h' h⟩
  | some value =>
      refine .inl ⟨⟨value, rfl⟩, ?_⟩
      intro key' hkey'
      cases List.mem_singleton.mp hkey'
      simp [Written, h]

end Reads

/-! ## What each screen reads -/

section Screens

variable {audio : Bool} {d : Defaults} {r : RunningApp}

theorem reads_isSoundEnabled : Reads d [.effect] (isSoundEnabled d) :=
  (reads_force .effect).map fun _ => ⟨_, rfl⟩

theorem reads_isLightModeEnabled : Reads d [.mode] (isLightModeEnabled d) :=
  (reads_force .mode).map fun _ => ⟨_, rfl⟩

theorem reads_setUpMode : Reads d [.mode] (setUpMode d) :=
  reads_isLightModeEnabled

/-- Setting the mode and then returning. -/
theorem reads_setUpMode_then {α : Type} (a : α) :
    Reads d [.mode] (setUpMode d >>= fun _ => .ok a) :=
  reads_setUpMode.map fun _ => ⟨a, rfl⟩

theorem reads_getUsername : Reads d [.email] (getUsername d) := by
  apply (reads_force .email).map
  intro userEmail
  exact ite_succeeds ⟨_, rfl⟩ ⟨_, rfl⟩

theorem reads_playSound : Reads d [.effect] (playSound d) :=
  reads_isSoundEnabled.map fun _ => ⟨_, rfl⟩

theorem reads_playMainSong : Reads d [.effect] (playMainSong audio d r) := by
  apply reads_isSoundEnabled.map
  intro enabled
  exact ite_succeeds ⟨_, rfl⟩ ⟨_, rfl⟩

theorem reads_loadMode : Reads d [.mode] (loadMode d) := by
  apply (reads_force .mode).map
  intro mode
  exact ite_succeeds ⟨_, rfl⟩ (ite_succeeds ⟨_, rfl⟩ ⟨_, rfl⟩)

theorem reads_loadEffect : Reads d [.effect] (loadEffect d) := by
  apply (reads_force .effect).map
  intro effect
  exact ite_succeeds ⟨_, rfl⟩ (ite_succeeds ⟨_, rfl⟩ ⟨_, rfl⟩)

/-- What the main menu does once it has looked at the effects. -/
theorem reads_play (hagain : Written d .effect) (play : Bool) :
    Reads d [.mode] (do
      let r ← if play then playMainSong audio d r else pure r
      let _light ← setUpMode d
      pure r) := by
  cases play with
  | false => exact reads_setUpMode_then r
  | true =>
      apply (reads_playMainSong.again hagain).bind
      intro _ r
      exact reads_setUpMode_then r

theorem reads_loadMain : Reads d [.effect, .mode] (loadMain audio d r) := by
  apply reads_isSoundEnabled.bind
  intro heffect enabled
  exact reads_play (heffect .effect (List.mem_singleton_self _)) enabled

theorem reads_appearMain : Reads d [.effect, .mode] (appearMain audio d r) := by
  apply reads_isSoundEnabled.bind
  intro heffect enabled
  exact reads_play (heffect .effect (List.mem_singleton_self _))
    (enabled && !r.mainSong)

/-- The settings read when a screen is loaded. -/
def ViewController.loads : ViewController → List DefaultsKey
  | .main => [.effect, .mode]
  | .settings => [.mode, .effect, .mode]
  | .offline => [.email, .mode]
  | .game => [.mode, .mode]
  | _ => [.mode]

theorem reads_load (vc : ViewController) :
    Reads d vc.loads (vc.load audio d r) := by
  cases vc with
  | main => exact reads_loadMain
  | settings =>
      apply reads_loadMode.bind
      intro _ _
      apply reads_loadEffect.bind
      intro _ _
      exact reads_setUpMode_then r
  | offline =>
      apply reads_getUsername.bind
      intro _ _
      exact reads_setUpMode_then r
  | game =>
      apply reads_isLightModeEnabled.bind
      intro _ _
      exact reads_setUpMode_then _
  | gameEnds => exact reads_setUpMode_then _
  | login | howToPlay | blank | activityLog | exchange =>
      exact reads_setUpMode_then r

theorem reads_typeStatus (status : List Char) :
    Reads d (status.map fun _ => .effect) (typeStatus d status) := by
  induction status with
  | nil => exact reads_ok ()
  | cons c status ih =>
      apply reads_isSoundEnabled.bind
      intro _ _
      exact ih

/-- The settings read when a screen appears. -/
def ViewController.appears (status : String) :
    ViewController → List DefaultsKey
  | .main => [.effect, .mode]
  | .gameEnds => (status.toList.map fun _ => .effect) ++ [.mode]
  | _ => [.mode]

theorem reads_appear (status : String) (vc : ViewController) :
    Reads d (vc.appears status) (vc.appear audio d r status) := by
  cases vc with
  | main => exact reads_appearMain
  | gameEnds =>
      apply (reads_typeStatus status.toList).bind
      intro _ _
      exact reads_setUpMode_then r
  | login | settings | howToPlay | offline | game | blank | activityLog
    | exchange => exact reads_setUpMode_then r

end Screens

/-! ## What loading and appearing leave alone -/

section Frame

variable {audio : Bool} {d : Defaults} {r : RunningApp}

/-- Nothing has changed but whether there is a player for the song. -/
def SameScreens (r r' : RunningApp) : Prop :=
  r'.screens = r.screens ∧ r'.gameLoaded = r.gameLoaded

theorem SameScreens.refl (r : RunningApp) : SameScreens r r := ⟨rfl, rfl⟩

theorem setUpMode_then_ensures {α : Type} {Q : α → Prop} {a : α} (h : Q a) :
    Ensures Q (setUpMode d >>= fun _ => .ok a) := by
  apply Ensures.bind
  intro _ _
  exact ensures_ok h

theorem playMainSong_same :
    Ensures (SameScreens r) (playMainSong audio d r) := by
  apply Ensures.bind
  intro enabled _
  cases enabled with
  | false => exact ensures_ok ⟨rfl, rfl⟩
  | true => exact ensures_ok ⟨rfl, rfl⟩

theorem play_same (play : Bool) :
    Ensures (SameScreens r) (do
      let r ← if play then playMainSong audio d r else pure r
      let _light ← setUpMode d
      pure r) := by
  cases play with
  | false => exact setUpMode_then_ensures (.refl r)
  | true =>
      apply Ensures.bind
      intro r' hplay
      exact setUpMode_then_ensures (playMainSong_same r' hplay)

theorem loadMain_same : Ensures (SameScreens r) (loadMain audio d r) := by
  apply Ensures.bind
  intro enabled _
  exact play_same enabled

theorem appearMain_same : Ensures (SameScreens r) (appearMain audio d r) := by
  apply Ensures.bind
  intro enabled _
  exact play_same (enabled && !r.mainSong)

/-- Loading a screen presents nothing, and only the game screen loads a
game. -/
theorem load_ensures (vc : ViewController) :
    Ensures (fun r' => r'.screens = r.screens ∧
        (r'.gameLoaded = true → r.gameLoaded = true ∨ vc = .game))
      (vc.load audio d r) := by
  cases vc with
  | main =>
      intro r' hload
      obtain ⟨hscreens, hgame⟩ := loadMain_same r' hload
      exact ⟨hscreens, fun h => .inl (hgame ▸ h)⟩
  | settings =>
      apply Ensures.bind
      intro _ _
      apply Ensures.bind
      intro _ _
      exact setUpMode_then_ensures ⟨rfl, .inl⟩
  | offline =>
      apply Ensures.bind
      intro _ _
      exact setUpMode_then_ensures ⟨rfl, .inl⟩
  | game =>
      apply Ensures.bind
      intro _ _
      exact setUpMode_then_ensures ⟨rfl, fun _ => .inr rfl⟩
  | gameEnds => exact setUpMode_then_ensures ⟨rfl, .inl⟩
  | login | howToPlay | blank | activityLog | exchange =>
      exact setUpMode_then_ensures ⟨rfl, .inl⟩

theorem appear_same (status : String) (vc : ViewController) :
    Ensures (SameScreens r) (vc.appear audio d r status) := by
  cases vc with
  | main => exact appearMain_same
  | gameEnds =>
      apply Ensures.bind
      intro _ _
      exact setUpMode_then_ensures (.refl r)
  | login | settings | howToPlay | offline | game | blank | activityLog
    | exchange => exact setUpMode_then_ensures (.refl r)

end Frame

/-! ## What a running app needs -/

/-- The settings that the app may read where nothing checks for them. -/
def RunningApp.needs (r : RunningApp) : DefaultsKey → Prop
  | .mode => True
  | .effect => (∃ vc ∈ r.screens, vc ≠ .login) ∨ r.gameLoaded = true
  | .email => .offline ∈ r.screens ∨ r.gameLoaded = true

section Needs

variable {audio : Bool} {d d' : Defaults} {r r' : RunningApp} {key : DefaultsKey}

theorem needs_mono (hscreens : ∀ vc ∈ r'.screens, vc ∈ r.screens)
    (hgame : r'.gameLoaded = true → r.gameLoaded = true)
    (h : r'.needs key) : r.needs key := by
  cases key with
  | mode => trivial
  | effect =>
      rcases h with ⟨vc, hvc, hlogin⟩ | h
      · exact .inl ⟨vc, hscreens vc hvc, hlogin⟩
      · exact .inr (hgame h)
  | email =>
      rcases h with h | h
      · exact .inl (hscreens _ h)
      · exact .inr (hgame h)

theorem SameScreens.needs (hsame : SameScreens r r') (h : r'.needs key) :
    r.needs key :=
  needs_mono (fun _ hvc => hsame.1 ▸ hvc) (fun hgame => hsame.2 ▸ hgame) h

theorem needs_effect_of_head? {top : ViewController}
    (htop : r.screens.head? = some top) (hlogin : top ≠ .login) :
    r.needs .effect :=
  .inl ⟨top, List.mem_of_mem_head? htop, hlogin⟩

/-- A screen is put on top of one that leads to it; what it makes necessary
it has already read. -/
theorem present_needs {vc : ViewController}
    (hvc : vc = .main ∨
      ∃ top, r.screens.head? = some top ∧ vc ∈ top.segues) :
    Ensures (fun r' => ∀ key, r'.needs key → r.needs key ∨ Written d key)
      (r.present audio d vc) := by
  apply Ensures.bind
  intro r' hload
  obtain ⟨hscreens, hgame⟩ := load_ensures vc r' hload
  have hwritten := (reads_load vc).written hload
  apply ensures_ok
  intro key h
  cases key with
  | mode => exact .inl trivial
  | effect =>
      rcases hvc with rfl | ⟨top, htop, hseg⟩
      · exact .inr (hwritten _ (by simp [ViewController.loads]))
      · refine .inl (needs_effect_of_head? htop ?_)
        rintro rfl
        cases hseg
  | email =>
      rcases h with h | h
      · rcases List.mem_cons.mp h with rfl | h
        · exact .inr (hwritten _ (by simp [ViewController.loads]))
        · exact .inl (.inl (hscreens ▸ h))
      · rcases hgame h with h | rfl
        · exact .inl (.inr h)
        · obtain ⟨top, htop, hseg⟩ := hvc.resolve_left (by decide)
          have hoffline : top = .offline := by
            cases top <;> simp [ViewController.segues] at hseg ⊢
          exact .inl (.inl (hoffline ▸ List.mem_of_mem_head? htop))

end Needs

/-! ## What a step can do -/

/-- No setting is lost, and what has become necessary is stored. -/
structure Advances (d : Defaults) (r : RunningApp) (a : App) : Prop where
  keeps : ∀ key, Written d key → Written a.defaults key
  needs : ∀ r', a.running = some r' →
    ∀ key, r'.needs key → r.needs key ∨ Written a.defaults key

section Step

variable {audio : Bool} {d d' : Defaults} {r r' : RunningApp}

theorem Advances.of_needs
    (h : ∀ key, r'.needs key → r.needs key ∨ Written d key) :
    Advances d r ⟨d, some r'⟩ where
  keeps := fun _ hwritten => hwritten
  needs := by
    intro _ hr key hneeds
    cases hr
    exact h key hneeds

theorem Advances.of_same (h : SameScreens r r') :
    Advances d r ⟨d, some r'⟩ :=
  .of_needs fun _ hneeds => .inl (h.needs hneeds)

/-- Screens are left. -/
theorem Advances.of_sublist (hscreens : r'.screens.Sublist r.screens)
    (hgame : r'.gameLoaded = r.gameLoaded) : Advances d r ⟨d, some r'⟩ := by
  apply Advances.of_needs
  intro key h
  exact .inl (needs_mono (fun _ hvc => hscreens.subset hvc) (hgame ▸ id) h)

theorem Advances.of_keeps (hsame : SameScreens r r')
    (h : ∀ key, Written d key → Written d' key) :
    Advances d r ⟨d', some r'⟩ where
  keeps := h
  needs := by
    intro _ hr key hneeds
    cases hr
    exact .inl (hsame.needs hneeds)

theorem signIn_same : SameScreens r r.signIn := by
  unfold RunningApp.signIn
  split
  next => exact ⟨rfl, rfl⟩
  next => exact .refl r

theorem signUpUser_same : SameScreens r r.signUpUser := by
  unfold RunningApp.signUpUser
  split
  next => exact ⟨rfl, rfl⟩
  next => exact .refl r

theorem toMain_needs :
    Ensures (fun r' => ∀ key, r'.needs key → r.needs key ∨ Written d key)
      (r.toMain audio d) := by
  apply Ensures.ite
  · intro _
    exact present_needs (.inl rfl)
  · intro _
    exact ensures_ok fun _ => .inl

theorem signInDone_advances (succeeded : Bool) (email : String) :
    Ensures (Advances d r) (signInDone audio succeeded d email r) := by
  apply Ensures.ite
  · intro _
    apply Ensures.bind
    intro r' _
    exact ensures_ok
      ⟨fun key _ => written_settings email key,
        fun _ _ key _ => .inr (written_settings email key)⟩
  · intro _
    exact ensures_ok (.of_same (.refl r))

theorem createUserDone_same (succeeded : Bool) :
    SameScreens r (createUserDone succeeded r) := by
  unfold createUserDone
  split
  next => exact signIn_same
  next => exact .refl r

theorem authStateDidChange_needs (user : Bool) :
    Ensures (fun r' => ∀ key, r'.needs key → r.needs key ∨ Written d key)
      (authStateDidChange audio user d r) := by
  apply Ensures.ite
  · intro _
    apply Ensures.bind
    intro r' hmain
    apply ensures_ok
    intro key h
    have hsame : SameScreens r' { r' with email := "", password := "" } :=
      ⟨rfl, rfl⟩
    exact toMain_needs r' hmain key (hsame.needs h)
  · intro _
    exact ensures_ok fun _ => .inl

theorem onEffectSegChange_advances (on : Bool) :
    Ensures (Advances d r) (onEffectSegChange on audio d r) := by
  have hkeeps (effect : String) (key : DefaultsKey) (h : Written d key) :
      Written (storeEffectInUserDefaults d effect) key := h.set
  apply Ensures.ite
  · intro _
    apply Ensures.ite
    · intro _
      exact ensures_ok (.of_keeps (.refl r) (hkeeps "on"))
    · intro _
      apply Ensures.bind
      intro r' hplay
      exact ensures_ok (.of_keeps (playMainSong_same r' hplay) (hkeeps "on"))
  · intro _
    exact ensures_ok (.of_keeps (.refl r) (hkeeps "off"))

theorem ensures_guardEvent {α : Type} {Q : α → Prop} {p : Prop} [Decidable p]
    {k : Except Fault α} (h : p → Ensures Q k) : Ensures Q (guardEvent p k) :=
  .ite h fun _ => ensures_error _

/-- One event of a running app. -/
theorem stepRunning_advances (e : ScreenEvent) :
    Ensures (Advances d r) (stepRunning d r e) := by
  cases e with
  | appear audio status =>
      apply Ensures.bind
      intro vc _
      apply Ensures.bind
      intro r' happear
      exact ensures_ok (.of_same (appear_same status vc r' happear))
  | onSegmentChange signUp =>
      apply ensures_guardEvent
      intro _
      exact ensures_ok (.of_same ⟨rfl, rfl⟩)
  | edit email password confirmPassword =>
      apply ensures_guardEvent
      intro _
      exact ensures_ok (.of_same ⟨rfl, rfl⟩)
  | loginButtonPressed =>
      apply ensures_guardEvent
      intro _
      cases hmode : r.signUp with
      | false => exact ensures_ok (.of_same signIn_same)
      | true => exact ensures_ok (.of_same signUpUser_same)
  | answer k audio succeeded =>
      apply Ensures.bind
      intro request _
      -- The request is no longer open when its handler runs.
      have hsame : SameScreens r
          { r with requests := r.requests.eraseIdx k } := ⟨rfl, rfl⟩
      cases request with
      | signIn email =>
          intro a hdone
          obtain ⟨hkeeps, hneeds⟩ :=
            signInDone_advances succeeded email a hdone
          refine ⟨hkeeps, ?_⟩
          intro r' hr key h
          exact (hneeds r' hr key h).imp_left hsame.needs
      | createUser => exact ensures_ok (.of_same (createUserDone_same succeeded))
  | authState audio user =>
      apply Ensures.bind
      intro r' hauth
      exact ensures_ok (.of_needs (authStateDidChange_needs user r' hauth))
  | segue vc audio =>
      apply Ensures.bind
      intro top htop
      apply ensures_guardEvent
      intro hseg
      apply Ensures.bind
      intro r' hpresent
      have hfrom := orFault_eq_ok.mp htop
      exact ensures_ok
        (.of_needs (present_needs (.inr ⟨top, hfrom, hseg⟩) r' hpresent))
  | dismiss =>
      apply Ensures.bind
      intro top _
      apply ensures_guardEvent
      intro _
      exact ensures_ok (.of_sublist (List.tail_sublist _) rfl)
  | done effectOff =>
      apply ensures_guardEvent
      intro _
      exact ensures_ok (.of_sublist (List.tail_sublist _) rfl)
  | playAgain =>
      apply ensures_guardEvent
      intro _
      exact ensures_ok (.of_sublist (List.dropWhile_sublist _) rfl)
  | onModeSegChange light =>
      apply ensures_guardEvent
      intro _
      exact ensures_ok (.of_keeps (.refl r) fun _ h => h.set)
  | onEffectSegChange on audio =>
      apply ensures_guardEvent
      intro _
      exact onEffectSegChange_advances on
  | drawCell =>
      apply Ensures.bind
      intro top _
      apply ensures_guardEvent
      intro _
      apply Ensures.bind
      intro _ _
      exact ensures_ok (.of_same (.refl r))
  | nameTest =>
      apply ensures_guardEvent
      intro _
      apply Ensures.bind
      intro _ _
      exact ensures_ok (.of_same (.refl r))
  | sound =>
      apply ensures_guardEvent
      intro _
      apply Ensures.bind
      intro _ _
      exact ensures_ok (.of_same (.refl r))

end Step

end Coup
