import Coup.Game.Outcome

/-!
# The order of the turns

The loop is left at every turn of the user and entered again by the work item
that the pressed button submits.  A visit is what one iteration makes of the
current seat, unless it only prompts the user.  Over a whole run the visits go
around the table, each of them logs one move or skips an eliminated player,
and the moves of the user are the presses in the order they were made.
-/

namespace Coup

open Coup.Support

/-- One iteration that does not end with a prompt: the seat it met, whether
that player was eliminated, and the moves it logged. -/
structure Visit where
  seat : ℕ
  out : Bool
  moves : List Move
  deriving DecidableEq, Repr

/-- The player in the current seat is eliminated. -/
def seatOut (s : State) : Bool :=
  match s.world.players[s.vc.turnInd]? with
  | some p => s.world.isPlayerRevealed p
  | none => false

/-- The visit of a step, if it is one. -/
def visit (y : Session) (e : Event) (y' : Session) : List Visit :=
  match e with
  | .iterate _ =>
      if y'.thread = .looping then
        [⟨y.game.vc.turnInd, seatOut y.game,
          y'.game.world.moveLog.drop y.game.world.moveLog.length⟩]
      else []
  | _ => []

/-- The visits of a run. -/
def visits (y : Session) (es : List Event) : List Visit :=
  record stepSession visit y es

/-- The moves that the user submits. -/
def submitted (user : PlayerRef) (es : List Event) : List Move :=
  es.filterMap fun e =>
    match e with
    | .press q => some (q.move user)
    | _ => none

/-- The moves of the visits to the first seat. -/
def userMoves (vs : List Visit) : List Move :=
  (vs.filter fun v => v.seat = 0).flatMap Visit.moves

/-- The move of a press that waits to be executed. -/
def waiting (s : State) : List Move :=
  if s.vc.didPlayerMove then [s.vc.playerMove] else []

/-- The visits `vs` lead around the table to the current seat of `s`, and they
account for the moves in the log and for the presses in `es`. -/
structure Walks (w : World) (user : PlayerRef) (es : List Event)
    (vs : List Visit) (s : State) : Prop where
  seats : ∀ (k : ℕ) (h : k < vs.length),
    vs[k].seat = k % w.players.length
  next : s.vc.turnInd = vs.length % w.players.length
  moveLog : s.world.moveLog = w.moveLog ++ vs.flatMap Visit.moves
  skipped : ∀ v ∈ vs, v.out = true → v.moves = []
  played : ∀ v ∈ vs, v.out = false →
    ∃ m, v.moves = [m] ∧ w.players[v.seat]? = some m.caller
  presses : submitted user es = userMoves vs ++ waiting s

section Step

variable {created : List CardRef} {w : World} {user : PlayerRef}
  {AIs : List PlayerRef} {y y' : Session} {es : List Event} {vs : List Visit}
  {e : Event} {s s' s₁ s₂ : State} {i : TurnInput} {p : PlayerRef} {m : Move}

theorem incrementInd_turnInd (h : s.vc.turnInd < s.world.players.length) :
    (incrementInd s).vc.turnInd =
      (s.vc.turnInd + 1) % s.world.players.length := by
  simp only [incrementInd]
  split
  next hlast =>
    have heq : s.vc.turnInd + 1 = s.world.players.length := by omega
    rw [heq, Nat.mod_self]
  next hmore => rw [Nat.mod_eq_of_lt (by omega)]

/-- One more visit, which logs the given moves. -/
theorem Walks.concat (h : Walks w user es vs s)
    (hplayers : s.world.players = w.players)
    (hlt : s.vc.turnInd < s.world.players.length) {v : Visit}
    (hseat : v.seat = s.vc.turnInd)
    (hturn : s'.vc.turnInd = (incrementInd s).vc.turnInd)
    (hlog : s'.world.moveLog = s.world.moveLog ++ v.moves)
    (hskipped : v.out = true → v.moves = [])
    (hplayed : v.out = false →
      ∃ m, v.moves = [m] ∧ w.players[v.seat]? = some m.caller)
    (hpresses : waiting s = (if v.seat = 0 then v.moves else []) ++ waiting s') :
    Walks w user es (vs ++ [v]) s' where
  seats k hk := by
    rw [List.length_append, List.length_singleton] at hk
    by_cases hlast : k < vs.length
    · rw [List.getElem_append_left hlast]
      exact h.seats k hlast
    · obtain rfl : k = vs.length := by omega
      simp [hseat, h.next]
  next := by
    rw [hturn, incrementInd_turnInd hlt, h.next, hplayers, List.length_append,
      List.length_singleton, Nat.mod_add_mod]
  moveLog := by
    rw [hlog, h.moveLog, List.flatMap_append, List.append_assoc]
    simp
  skipped v' hv' := by
    rcases List.mem_append.mp hv' with hold | hnew
    · exact h.skipped v' hold
    · rw [List.mem_singleton] at hnew
      exact hnew ▸ hskipped
  played v' hv' := by
    rcases List.mem_append.mp hv' with hold | hnew
    · exact h.played v' hold
    · rw [List.mem_singleton] at hnew
      exact hnew ▸ hplayed
  presses := by
    rw [h.presses, hpresses, ← List.append_assoc]
    congr 1
    rw [userMoves, userMoves, List.filter_append, List.flatMap_append]
    by_cases hzero : v.seat = 0 <;> simp [hzero]

/-- A step that is no visit and no press. -/
theorem Walks.congr (h : Walks w user es vs s)
    (hlog : s'.world.moveLog = s.world.moveLog)
    (hturn : s'.vc.turnInd = s.vc.turnInd) {es' : List Event}
    (hpresses : submitted user es' = userMoves vs ++ waiting s') :
    Walks w user es' vs s' where
  seats := h.seats
  next := hturn.trans h.next
  moveLog := hlog.trans h.moveLog
  skipped := h.skipped
  played := h.played
  presses := hpresses

/-- With distinct names the user is asked in the first seat only. -/
theorem UserTurn.turnInd (hin : InPlay created w user AIs s)
    (hnames : DistinctNames w) (h : UserTurn s p) : s.vc.turnInd = 0 := by
  have hfirst : s.world.players[0]? = some user := by rw [hin.players]; rfl
  have hcurrent := h.current
  rw [h.eq_user hin hnames] at hcurrent
  have hlt := hin.turnInd
  have hpos : 0 < s.world.players.length := by omega
  rw [List.getElem?_eq_getElem hlt] at hcurrent
  rw [List.getElem?_eq_getElem hpos] at hfirst
  have hsame : s.world.players[s.vc.turnInd] = s.world.players[0] := by
    rw [Option.some.inj hcurrent, Option.some.inj hfirst]
  exact (List.Nodup.getElem_inj_iff hin.nodup).mp hsame

theorem submitted_concat (user : PlayerRef) (es : List Event) (e : Event) :
    submitted user (es ++ [e]) = submitted user es ++ submitted user [e] :=
  List.filterMap_append ..

/-- An iteration that takes a turn is a visit that logs exactly one move, and
at the seat of the user that is the move pressed. -/
theorem Walks.turn (hin : InPlay created w user AIs s)
    (hnames : DistinctNames w) (hmove : s.vc.didPlayerMove = true → Pressed s)
    (h : Walks w user es vs s) (hturn : TakesTurn s i p m s₁ s₂ s') :
    Walks w user es (vs ++ [⟨s.vc.turnInd, seatOut s,
      s'.world.moveLog.drop s.world.moveLog.length⟩]) s' := by
  obtain ⟨hpasses, -⟩ := hturn.spec hin hmove
  obtain ⟨hcurrent, hactive, hchosen⟩ := hturn.chosen
  have hout : seatOut s = false := by
    rw [seatOut, hcurrent]
    exact hactive
  have hmoves : s'.world.moveLog.drop s.world.moveLog.length = [m] := by
    rw [hpasses.moveLog, List.drop_left]
  rw [hout, hmoves]
  have hafter : waiting s' = [] := by simp [waiting, hpasses.didPlayerMove]
  refine h.concat hin.table.players hin.turnInd rfl hpasses.turnInd
    hpasses.moveLog (fun h => by cases h) (fun _ => ⟨m, rfl, ?_⟩) ?_
  · have hlegal := hturn.legal hin hnames hmove
    rw [hlegal.caller, ← hin.table.players]
    exact hcurrent
  · rw [hafter, List.append_nil]
    cases hchosen with
    | user hname hpressed hm hstate =>
        have hzero := UserTurn.turnInd hin hnames ⟨hcurrent, hactive, hname⟩
        simp [waiting, hpressed, hzero, hm]
    | ai w' hname hget hstate =>
        have hzero : s.vc.turnInd ≠ 0 := by
          intro hzero
          rw [hzero, hin.players] at hcurrent
          cases hcurrent
          exact hname hin.name_user
        have hnone : s.vc.didPlayerMove = false := by
          by_contra hpressed
          obtain ⟨q, p', huserTurn, -⟩ :=
            hmove (Bool.eq_true_of_not_eq_false hpressed)
          exact hzero (huserTurn.turnInd hin hnames)
        simp [waiting, hnone, hzero]

/-- Every step of a session extends the walk. -/
theorem Walks.step (hrunning : Running created w user AIs y)
    (hnames : DistinctNames w) (h : Walks w user es vs y.game)
    (hstep : stepSession y e = .ok y') :
    Walks w user (es ++ [e]) (vs ++ visit y e y') y'.game := by
  have hin := hrunning.inPlay
  have hquiet : submitted user [e] = [] →
      Walks w user (es ++ [e]) vs y.game := fun hnone => by
    apply h.congr rfl rfl
    rw [submitted_concat, hnone, List.append_nil]
    exact h.presses
  cases stepSession_spec hstep with
  | skip i hlooping _ hout =>
      obtain ⟨p, hp, hrevealed⟩ := hout
      have hseat : seatOut y.game = true := by
        rw [seatOut, hp]
        exact hrevealed
      have hvisit : visit y (.iterate i)
          { y with game := incrementInd y.game } =
            [⟨y.game.vc.turnInd, true, []⟩] := by
        simp only [visit]
        rw [if_pos hlooping, hseat]
        exact congrArg (fun ms => [Visit.mk _ true ms]) List.drop_length
      rw [hvisit]
      refine (hquiet rfl).concat hin.table.players hin.turnInd rfl rfl
        (List.append_nil _).symm (fun _ => rfl) (fun h => by cases h) ?_
      simp only [ite_self, List.nil_append]
      rfl
  | turn i p m s₁ s₂ s hlooping _ hturn =>
      simp only [visit]
      rw [if_pos hlooping]
      exact (hquiet rfl).turn hin hnames hrunning.phase.pressed hturn
  | prompt i _ _ hprompt =>
      simp only [visit]
      rw [if_neg (by simp), List.append_nil]
      exact hquiet rfl
  | start | finish | wake | deliver | endGame =>
      simp only [visit]
      rw [List.append_nil]
      refine Walks.congr (hquiet rfl) ?_ ?_ (hquiet rfl).presses
      · rfl
      · rfl
  | press q caller s hon _ hcaller hsubmits =>
      obtain ⟨-, -, -, hnone, p, huser⟩ := hrunning.phase.enabled hon
      obtain rfl := huser.unique hcaller
      rw [huser.eq_user hin hnames] at hsubmits
      simp only [visit]
      rw [List.append_nil]
      refine h.congr (by rw [hsubmits.world]) (by rw [hsubmits.vc]) ?_
      have hbefore : waiting y.game = [] := by simp [waiting, hnone]
      have hafter : waiting s = [q.move user] := by
        rw [waiting, hsubmits.vc]
        rfl
      rw [submitted_concat, h.presses, hbefore, hafter, List.append_nil]
      rfl

end Step

/-- The visits of a run go around the table from the first seat, an eliminated
player is skipped and everybody else logs one move of their own, nothing else
is logged, and the presses of the user are executed once each and in order; a
press that is not executed yet waits for an iteration of the loop. -/
theorem turns_in_order {w : World} {user : PlayerRef} {AIs : List PlayerRef}
    {base : CardRef} {shuffling dealing : List ℕ} {y₀ y : Session}
    {es : List Event} (hlobby : Lobby w user AIs) (hnames : DistinctNames w)
    (hopen : openSession w base shuffling dealing = .ok y₀)
    (hrun : run stepSession y₀ es = .ok y) :
    (∀ (k : ℕ) (h : k < (visits y₀ es).length),
        (visits y₀ es)[k].seat = k % w.players.length) ∧
      (∀ v ∈ visits y₀ es, (v.out = true → v.moves = []) ∧
        (v.out = false →
          ∃ m, v.moves = [m] ∧ w.players[v.seat]? = some m.caller)) ∧
      y.game.world.moveLog =
        w.moveLog ++ (visits y₀ es).flatMap Visit.moves ∧
      submitted user es = userMoves (visits y₀ es) ++ waiting y.game ∧
      (y.game.vc.didPlayerMove = true → y.game.vc.gameOn = true →
        y.thread = .looping ∨ y.pending = 1) := by
  obtain ⟨hstart, hlog, -, hnone, hturn, -⟩ := openSession_spec hlobby hopen
  have hinvariant :
      Running (createdCards base) (w.createCards base) user AIs y ∧
        Walks (w.createCards base) user es (visits y₀ es) y.game := by
    refine record_invariant
      (I := fun es vs y =>
        Running (createdCards base) (w.createCards base) user AIs y ∧
          Walks (w.createCards base) user es vs y.game) ?_ hrun ⟨hstart, ?_⟩
    · rintro es vs y e y' ⟨hrunning, hwalks⟩ hstep
      exact ⟨hrunning.step hstep, hwalks.step hrunning hnames hstep⟩
    · refine ⟨(fun k h => by cases h), hturn, ?_, (fun v hv => by cases hv),
        (fun v hv => by cases hv), ?_⟩
      · rw [hlog]
        exact (List.append_nil _).symm
      · simp [submitted, userMoves, waiting, hnone]
  obtain ⟨hrunning, hwalks⟩ := hinvariant
  exact ⟨hwalks.seats, fun v hv => ⟨hwalks.skipped v hv, hwalks.played v hv⟩,
    hwalks.moveLog, hwalks.presses, hrunning.phase.live⟩

/-- The user takes tax and then income, and the AI moves in between. -/
def taxThenIncome : List Event :=
  [.start, scripted .allow .greatest 1 [] [], .deliver, .press .tax, .wake,
    .start, scripted .allow .greatest 1 [] [],
    scripted .allow .greatest 1 [] [], scripted .allow .greatest 1 [] [],
    .wake, .deliver, .press .income, .start]

theorem turns_in_order_taxThenIncome :
    ∃ y₀ y, openSession (lobbyOf "user" ["Charlie Puth"] []) 0 (List.range 15)
        [4, 8] = .ok y₀ ∧
      run stepSession y₀ taxThenIncome = .ok y ∧
      submitted 0 taxThenIncome = [⟨.tax, 0, 0⟩, ⟨.income, 0, 0⟩] ∧
      submitted 0 taxThenIncome =
        userMoves (visits y₀ taxThenIncome) ++ waiting y.game := by
  have hlast : lastStep stepSession
      (openSession (lobbyOf "user" ["Charlie Puth"] []) 0 (List.range 15)
        [4, 8]) taxThenIncome .endGame (fun _ _ => true) = true := by
    decide +kernel
  obtain ⟨y₀, y, -, hopen, hrun, -⟩ := exists_of_lastStep hlast
  have horder := turns_in_order
    (lobbyOf_one "user" "Charlie Puth")
    (lobbyOf_distinctNames [] (by decide)) hopen hrun
  exact ⟨y₀, y, hopen, hrun, rfl, horder.2.2.2.1⟩

end Coup
