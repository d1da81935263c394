import Coup.Support.Run
import Coup.Backend.Card
import Mathlib.Logic.Function.Basic

/-!
# The screens of the app and the stored settings

`UserDefaults` keeps three settings from one launch to the next: the mode, the
sound effects and the email.  Reading one is a forced cast, which traps on a
key that was never written.  The settings are written when a sign-in has
succeeded and on the settings screen; nearly every screen reads some of them
when it is loaded and when it appears.
-/

namespace Coup

open Coup.Support

/-! ## User defaults -/

inductive DefaultsKey
  | mode
  | effect
  | email
  deriving DecidableEq, Repr

/-- What is stored under the keys. -/
abbrev Defaults := DefaultsKey → Option String

/-- `defaults.set(_:forKey:)`. -/
def Defaults.set (d : Defaults) (key : DefaultsKey) (value : String) :
    Defaults :=
  Function.update d key (some value)

/-- `defaults.object(forKey:) as! String`. -/
def Defaults.force (d : Defaults) (key : DefaultsKey) : Except Fault String :=
  orFault .trap (d key)

def storeEmailInUserDefaults (d : Defaults) (email : String) : Defaults :=
  d.set .email email

def getEmailInUserDefaults (d : Defaults) : Except Fault String :=
  d.force .email

/-- The email up to its first `@`. -/
def getUsername (d : Defaults) : Except Fault String := do
  let userEmail ← getEmailInUserDefaults d
  if '@' ∈ userEmail.toList then
    pure (String.ofList (userEmail.toList.takeWhile fun c => c ≠ '@'))
  else pure ""

def storeModeInUserDefaults (d : Defaults) (mode : String) : Defaults :=
  d.set .mode mode

def getModeInUserDefaults (d : Defaults) : Except Fault String :=
  d.force .mode

def storeEffectInUserDefaults (d : Defaults) (effect : String) : Defaults :=
  d.set .effect effect

def getEffectInUserDefaults (d : Defaults) : Except Fault String :=
  d.force .effect

def initializeSettingsInUserDefaults (d : Defaults) (email : String) :
    Defaults :=
  storeEffectInUserDefaults
    (storeModeInUserDefaults (storeEmailInUserDefaults d email) "light") "on"

def isSoundEnabled (d : Defaults) : Except Fault Bool := do
  let effect ← getEffectInUserDefaults d
  pure (effect == "on")

def isLightModeEnabled (d : Defaults) : Except Fault Bool := do
  let mode ← getModeInUserDefaults d
  pure (mode == "light")

/-! ## Screens -/

/-- The view controllers of the storyboard. -/
inductive ViewController
  | login
  | main
  | settings
  | howToPlay
  | offline
  | game
  | blank
  | activityLog
  | exchange
  | gameEnds
  deriving DecidableEq, Repr

/-- The segues that a button or the game thread triggers; the one from the
login screen to the main menu is performed by the sign-in. -/
def ViewController.segues : ViewController → List ViewController
  | .main => [.offline, .settings, .howToPlay]
  | .offline => [.game]
  | .game => [.blank, .activityLog, .exchange, .gameEnds]
  | _ => []

/-- The screens that are left by going back or swiping down. -/
def ViewController.dismissible : ViewController → Bool
  | .howToPlay | .offline | .blank | .activityLog | .exchange => true
  | _ => false

/-- The screens with a table view whose cells look at the mode. -/
def ViewController.hasTable : ViewController → Bool
  | .offline | .game | .activityLog => true
  | _ => false

/-- Requests to Firebase that have not been answered. -/
inductive Request
  | signIn (email : String)
  | createUser
  deriving DecidableEq, Repr

/-- A running app: the screens on top of each other with the visible one
first, the fields of the login screen, the open requests, whether
`audioPlayerMainSong` is set, and whether a game has been loaded, whose thread
may still be running. -/
structure RunningApp where
  screens : List ViewController
  signUp : Bool
  email : String
  password : String
  confirmPassword : String
  requests : List Request
  mainSong : Bool
  gameLoaded : Bool

/-- The app on the device; only the defaults survive the end of the process. -/
structure App where
  defaults : Defaults
  running : Option RunningApp

/-- The app before it is launched. -/
def App.installed (d : Defaults) : App := ⟨d, none⟩

/-- The defaults of a fresh install. -/
def freshInstall : Defaults := fun _ => none

/-! ## What the screens read -/

section Load

variable (audio : Bool) (d : Defaults) (r : RunningApp)

/-- `setUpMode`, which every screen has; the result is whether it is light. -/
def setUpMode : Except Fault Bool := isLightModeEnabled d

/-- `Sound.playMainSong`; `audio` says whether the song and a player for it can
be had. -/
def playMainSong : Except Fault RunningApp := do
  let enabled ← isSoundEnabled d
  if enabled then pure { r with mainSong := r.mainSong || audio }
  else pure r

/-- `Sound.playSound`. -/
def playSound : Except Fault Unit := do
  let _enabled ← isSoundEnabled d
  pure ()

/-- `loadMode` of the settings screen: the segment to select. -/
def loadMode : Except Fault (Option ℕ) := do
  let mode ← getModeInUserDefaults d
  if mode = "light" then pure (some 0)
  else if mode = "dark" then pure (some 1)
  else pure none

/-- `loadEffect` of the settings screen. -/
def loadEffect : Except Fault (Option ℕ) := do
  let effect ← getEffectInUserDefaults d
  if effect = "on" then pure (some 0)
  else if effect = "off" then pure (some 1)
  else pure none

/-- `MainViewController.viewDidLoad`. -/
def loadMain : Except Fault RunningApp := do
  let enabled ← isSoundEnabled d
  let r ← if enabled then playMainSong audio d r else pure r
  let _light ← setUpMode d
  pure r

/-- `MainViewController.viewDidAppear`. -/
def appearMain : Except Fault RunningApp := do
  let enabled ← isSoundEnabled d
  let r ← if enabled && !r.mainSong then playMainSong audio d r else pure r
  let _light ← setUpMode d
  pure r

/-- The initial values of the fields of a screen and its `viewDidLoad`. -/
def ViewController.load : ViewController → Except Fault RunningApp
  | .main => loadMain audio d r
  | .settings => do
      let _modeSegment ← loadMode d
      let _effectSegment ← loadEffect d
      let _light ← setUpMode d
      pure r
  | .offline => do
      let _name ← getUsername d
      let _light ← setUpMode d
      pure r
  | .game => do
      let _light ← isLightModeEnabled d
      let _light ← setUpMode d
      pure { r with gameLoaded := true }
  | .gameEnds => do
      let _light ← setUpMode d
      pure { r with mainSong := false }
  | .login | .howToPlay | .blank | .activityLog | .exchange => do
      let _light ← setUpMode d
      pure r

/-- `typeStatus` looks at the effects before each character. -/
def typeStatus : List Char → Except Fault Unit
  | [] => .ok ()
  | _ :: status => do
      let _enabled ← isSoundEnabled d
      typeStatus status

/-- `viewDidAppear`. -/
def ViewController.appear (status : String) :
    ViewController → Except Fault RunningApp
  | .main => appearMain audio d r
  | .gameEnds => do
      let _ ← typeStatus d status.toList
      let _light ← setUpMode d
      pure r
  | _ => do
      let _light ← setUpMode d
      pure r

/-- Load a screen and put it on top. -/
def RunningApp.present (vc : ViewController) : Except Fault RunningApp := do
  let r ← vc.load audio d r
  pure { r with screens := vc :: r.screens }

/-- `performSegue` from the login screen to the main menu, which UIKit only
does while nothing is presented over the login screen. -/
def RunningApp.toMain : Except Fault RunningApp :=
  if r.screens.head? = some .login then r.present audio d .main
  else .ok r

end Load

/-! ## Signing in -/

/-- `signIn` on the login screen.  Both lengths are counts of characters, which
are grapheme clusters in the source and code points here. -/
def RunningApp.signIn (r : RunningApp) : RunningApp :=
  if 7 ≤ r.email.length ∧ 7 ≤ r.password.length then
    { r with requests := r.requests ++ [.signIn r.email] }
  else r

/-- `signUp` on the login screen. -/
def RunningApp.signUpUser (r : RunningApp) : RunningApp :=
  if r.password = r.confirmPassword ∧ 7 ≤ r.email.length ∧
      7 ≤ r.password.length then
    { r with requests := r.requests ++ [.createUser] }
  else r

/-- The completion handler of `signIn`. -/
def signInDone (audio succeeded : Bool) (d : Defaults) (email : String)
    (r : RunningApp) : Except Fault App :=
  if succeeded then do
    let d := initializeSettingsInUserDefaults d email
    let r ← r.toMain audio d
    pure ⟨d, some r⟩
  else .ok ⟨d, some r⟩

/-- The completion handler of `createUser`. -/
def createUserDone (succeeded : Bool) (r : RunningApp) : RunningApp :=
  if succeeded then r.signIn else r

/-- The listener that `viewDidLoad` of the login screen adds. -/
def authStateDidChange (audio user : Bool) (d : Defaults) (r : RunningApp) :
    Except Fault RunningApp :=
  if user then do
    let r ← r.toMain audio d
    pure { r with email := "", password := "" }
  else .ok r

/-! ## Events -/

/-- What can happen to a running app. -/
inductive ScreenEvent
  /-- `viewDidAppear` of the visible screen; `status` is the text that the
  end of a game has left for the screen after it. -/
  | appear (audio : Bool) (status : String)
  | onSegmentChange (signUp : Bool)
  | edit (email password confirmPassword : String)
  | loginButtonPressed
  /-- Firebase answers an open request. -/
  | answer (k : ℕ) (audio succeeded : Bool)
  /-- Firebase runs the listener, with a user or without. -/
  | authState (audio user : Bool)
  | segue (vc : ViewController) (audio : Bool)
  | dismiss
  /-- `doneButtonPressed` on the settings screen. -/
  | done (effectOff : Bool)
  /-- `playAgainPressed` unwinds to the main menu. -/
  | playAgain
  | onModeSegChange (light : Bool)
  | onEffectSegChange (on audio : Bool)
  /-- A cell of a table view is configured. -/
  | drawCell
  /-- The game thread compares a name with the user's. -/
  | nameTest
  /-- The game thread plays a sound. -/
  | sound
  deriving DecidableEq, Repr

inductive AppEvent
  /-- A new process, whatever has become of the old one. -/
  | launch
  | screen (e : ScreenEvent)
  deriving DecidableEq, Repr

/-- The two segments for the mode. -/
def onModeSegChange (light : Bool) (d : Defaults) : Defaults :=
  storeModeInUserDefaults d (if light then "light" else "dark")

/-- The two segments for the effects; without a player for the song one is
made. -/
def onEffectSegChange (on audio : Bool) (d : Defaults) (r : RunningApp) :
    Except Fault App :=
  if on then do
    let d := storeEffectInUserDefaults d "on"
    let r ← if r.mainSong then pure r else playMainSong audio d r
    pure ⟨d, some r⟩
  else .ok ⟨storeEffectInUserDefaults d "off", some r⟩

/-- The event happens if it can. -/
def guardEvent {α : Type} (possible : Prop) [Decidable possible]
    (k : Except Fault α) : Except Fault α :=
  if possible then k else .error .refused

/-- The login screen at the start of a process. -/
def RunningApp.init : RunningApp :=
  { screens := [.login], signUp := false, email := "", password := ""
    confirmPassword := "", requests := [], mainSong := false
    gameLoaded := false }

/-- The login screen is the initial view controller; `viewDidLoad` adds the
listener and sets the mode. -/
def launch (d : Defaults) : Except Fault App := do
  let r ← ViewController.load false d .init .login
  pure ⟨d, some r⟩

def stepRunning (d : Defaults) (r : RunningApp) : ScreenEvent → Except Fault App
  | .appear audio status => do
      let vc ← orFault .refused r.screens.head?
      let r ← vc.appear audio d r status
      pure ⟨d, some r⟩
  | .onSegmentChange signUp =>
      guardEvent (r.screens.head? = some .login) <|
        .ok ⟨d, some { r with signUp }⟩
  | .edit email password confirmPassword =>
      guardEvent (r.screens.head? = some .login) <|
        .ok ⟨d, some { r with email, password, confirmPassword }⟩
  | .loginButtonPressed =>
      guardEvent (r.screens.head? = some .login) <|
        .ok ⟨d, some (if r.signUp then r.signUpUser else r.signIn)⟩
  | .answer k audio succeeded => do
      let request ← orFault .refused r.requests[k]?
      let r := { r with requests := r.requests.eraseIdx k }
      match request with
      | .signIn email => signInDone audio succeeded d email r
      | .createUser => pure ⟨d, some (createUserDone succeeded r)⟩
  | .authState audio user => do
      let r ← authStateDidChange audio user d r
      pure ⟨d, some r⟩
  | .segue vc audio => do
      let top ← orFault .refused r.screens.head?
      guardEvent (vc ∈ top.segues) do
        let r ← r.present audio d vc
        pure ⟨d, some r⟩
  | .dismiss => do
      let top ← orFault .refused r.screens.head?
      guardEvent (top.dismissible = true) <|
        .ok ⟨d, some { r with screens := r.screens.tail }⟩
  | .done effectOff =>
      guardEvent (r.screens.head? = some .settings) <|
        .ok ⟨d, some { r with
          screens := r.screens.tail
          mainSong := r.mainSong && !effectOff }⟩
  | .playAgain =>
      guardEvent (r.screens.head? = some .gameEnds) <|
        .ok ⟨d, some { r with
          screens := r.screens.dropWhile fun vc => vc ≠ .main }⟩
  | .onModeSegChange light =>
      guardEvent (r.screens.head? = some .settings) <|
        .ok ⟨onModeSegChange light d, some r⟩
  | .onEffectSegChange on audio =>
      guardEvent (r.screens.head? = some .settings) <|
        onEffectSegChange on audio d r
  | .drawCell => do
      let top ← orFault .refused r.screens.head?
      guardEvent (top.hasTable = true) do
        let _light ← isLightModeEnabled d
        pure ⟨d, some r⟩
  | .nameTest =>
      guardEvent (r.gameLoaded = true) do
        let _name ← getUsername d
        pure ⟨d, some r⟩
  | .sound =>
      guardEvent (r.gameLoaded = true) do
        let _ ← playSound d
        pure ⟨d, some r⟩

def stepApp (a : App) : AppEvent → Except Fault App
  | .launch => launch a.defaults
  | .screen e => do
      let r ← orFault .refused a.running
      stepRunning a.defaults r e

end Coup
