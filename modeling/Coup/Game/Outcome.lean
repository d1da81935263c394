import Coup.Game.Invariant

/-!
# How a turn can end

With distinct names the user sits in the first seat, every move is legal, and
a challenger is somebody else than the player whose move it is.  A turn then
ends on the board in one of four ways, which `Outcome` lists together with the
objection that led there.
-/

namespace Coup

open Coup.Support

/-- A player holds an unrevealed card with the ability. -/
def Holds (w : World) (p : PlayerRef) (name : MoveName) : Prop :=
  ∃ i, (w.held p i).revealed = false ∧ (w.held p i).can name = true

theorem holds_iff (w : World) (p : PlayerRef) (name : MoveName) :
    Holds w p name ↔ ∃ j, slotOf (w.checkhaveCard p name) = some j := by
  rw [← Option.isSome_iff_exists, ← Option.ne_none_iff_isSome, Ne,
    slotOf_checkhaveCard]
  exact (w.checkhaveCard_ne_neg_one_iff p name).symm

theorem Holds.influence_pos {w : World} {p : PlayerRef} {name : MoveName}
    (h : Holds w p name) : 0 < w.board.influence p := by
  obtain ⟨i, hdown, -⟩ := h
  rw [Nat.pos_iff_ne_zero]
  intro hout
  have hup : (w.held p i).revealed = true :=
    (w.board.out_iff p).mp hout i
  rw [hdown] at hup
  cases hup

/-! ## Objections -/

/-- The move cannot be challenged, or the challenge round allowed it. -/
def Accepted (s : State) (m : Move) (i : RoundInput) : Prop :=
  challengeable m.name = true →
    ∃ s' o, anyChallenges s m i = .ok (s', o) ∧ o.name = .allow

/-- The challenge round ended with a challenge by `challenger`. -/
def ChallengedBy (s : State) (m : Move) (i : RoundInput)
    (challenger : PlayerRef) : Prop :=
  challengeable m.name = true ∧
    ∃ s' o, anyChallenges s m i = .ok (s', o) ∧ o.name = .challenge ∧
      o.caller = challenger

/-- Nobody was asked, so the round returned its initial `Move()`. -/
def Unanswered (s : State) (m : Move) (i : RoundInput) : Prop :=
  challengeable m.name = true ∧
    ∃ s' o, anyChallenges s m i = .ok (s', o) ∧ o.name ≠ .allow ∧
      o.name ≠ .challenge

theorem ChallengedBy.unique {s : State} {m : Move} {i : RoundInput}
    {c c' : PlayerRef} (h : ChallengedBy s m i c)
    (h' : ChallengedBy s m i c') : c = c' := by
  obtain ⟨-, s₁, o, hround, -, rfl⟩ := h
  obtain ⟨-, s₂, o', hround', -, rfl⟩ := h'
  rw [hround] at hround'
  cases hround'
  rfl

theorem ChallengedBy.not_accepted {s : State} {m : Move} {i : RoundInput}
    {c : PlayerRef} (h : ChallengedBy s m i c) : ¬ Accepted s m i := by
  obtain ⟨hopen, s₁, o, hround, hname, -⟩ := h
  intro haccepted
  obtain ⟨s₂, o', hround', hallow⟩ := haccepted hopen
  rw [hround] at hround'
  cases hround'
  rw [hname] at hallow
  cases hallow

theorem ChallengedBy.not_unanswered {s : State} {m : Move} {i : RoundInput}
    {c : PlayerRef} (h : ChallengedBy s m i c) : ¬ Unanswered s m i := by
  obtain ⟨-, s₁, o, hround, hname, -⟩ := h
  rintro ⟨-, s₂, o', hround', -, hne⟩
  rw [hround] at hround'
  cases hround'
  exact hne hname

theorem Unanswered.not_accepted {s : State} {m : Move} {i : RoundInput}
    (h : Unanswered s m i) : ¬ Accepted s m i := by
  obtain ⟨hopen, s₁, o, hround, hne, -⟩ := h
  intro haccepted
  obtain ⟨s₂, o', hround', hallow⟩ := haccepted hopen
  rw [hround] at hround'
  cases hround'
  exact hne hallow

/-! ## Distinct names -/

section Names

variable {created : List CardRef} {w : World} {user : PlayerRef}
  {AIs : List PlayerRef} {s s₁ s₂ s' : State} {p q : PlayerRef} {m : Move}
  {i : TurnInput}

theorem InPlay.eq_of_name (hin : InPlay created w user AIs s)
    (hnames : DistinctNames w) (hp : p ∈ s.world.players)
    (hq : q ∈ s.world.players)
    (h : (s.world.player p).name = (s.world.player q).name) : p = q := by
  rw [hin.table.players] at hp hq
  rw [hin.table.name, hin.table.name] at h
  exact List.inj_on_of_nodup_map hnames hp hq h

theorem InPlay.name_user (hin : InPlay created w user AIs s) :
    (s.world.player user).name = s.world.username := by
  rw [hin.table.name, hin.table.username]
  exact hin.lobby.userName

theorem InPlay.user_seated (hin : InPlay created w user AIs s) :
    user ∈ s.world.players :=
  hin.user ▸ hin.user_mem

/-- With distinct names a user turn is a turn of the first seat. -/
theorem UserTurn.eq_user (hin : InPlay created w user AIs s)
    (hnames : DistinctNames w) (h : UserTurn s p) : p = user := by
  refine hin.eq_of_name hnames (List.mem_of_getElem? h.current)
    hin.user_seated ?_
  rw [h.name, hin.name_user]

theorem InPlay.mem_AIs (hin : InPlay created w user AIs s) (hp : p ∈ AIs) :
    p ∈ s.world.players ∧ p ≠ user := by
  have hnodup := hin.nodup
  rw [hin.players] at hnodup ⊢
  refine ⟨List.mem_cons_of_mem _ hp, ?_⟩
  rintro rfl
  exact (List.nodup_cons.mp hnodup).1 hp

/-- What the user can press is legal. -/
theorem Pressed.legal (hin : InPlay created w user AIs s)
    (hnames : DistinctNames w) (hpressed : Pressed s)
    (hp : s.world.players[s.vc.turnInd]? = some p) :
    Legal s.world p s.vc.playerMove := by
  obtain ⟨q, p', hturn, hoffered, hmove⟩ := hpressed
  obtain rfl : p = p' := by
    have hp' := hturn.current
    rw [hp] at hp'
    exact Option.some.inj hp'
  have huser := hturn.eq_user hin hnames
  have hseated : p ∈ s.world.players := List.mem_of_getElem? hp
  have hcoins : (s.world.player p).coins =
      (s.world.player s.vc.user).coins := by
    rw [hin.user, huser]
  have htarget : ∀ {target}, q.target = some target →
      target ∈ s.world.players ∧
        (s.world.player target).name ≠ (s.world.player p).name := by
    intro target ht
    obtain ⟨hmem, hne⟩ := hin.mem_AIs (hin.sheet_mem hoffered ht)
    refine ⟨hmem, fun hname => hne ?_⟩
    rw [hin.eq_of_name hnames hmem hseated hname, huser]
  rw [hmove]
  cases q with
  | income | foreignAid | tax | exchange =>
      exact ⟨rfl, rfl, hseated, fun _ => rfl, (fun h => by cases h),
        (fun h => by cases h), (fun h => by cases h)⟩
  | coup target =>
      obtain ⟨hmem, hother⟩ := htarget rfl
      exact ⟨rfl, rfl, hmem, (fun h => by cases h), fun _ => hother,
        fun _ => hcoins ▸ hoffered.1, (fun h => by cases h)⟩
  | steal target =>
      obtain ⟨hmem, hother⟩ := htarget rfl
      exact ⟨rfl, rfl, hmem, (fun h => by cases h), fun _ => hother,
        (fun h => by cases h), (fun h => by cases h)⟩
  | assassinate target =>
      obtain ⟨hmem, hother⟩ := htarget rfl
      exact ⟨rfl, rfl, hmem, (fun h => by cases h), fun _ => hother,
        (fun h => by cases h), fun _ => hcoins ▸ hoffered.1⟩

/-- Every move that is played is legal. -/
theorem TakesTurn.legal (hin : InPlay created w user AIs s)
    (hnames : DistinctNames w) (hmove : s.vc.didPlayerMove = true → Pressed s)
    (h : TakesTurn s i p m s₁ s₂ s') : Legal s.world p m := by
  obtain ⟨hcurrent, -, hchosen⟩ := h.chosen
  cases hchosen with
  | user hname hpressed hm hstate =>
      rw [hm]
      exact (hmove hpressed).legal hin hnames hcurrent
  | ai w hname hget hstate =>
      exact (getPlayerMove_spec h.seated (hin.ai_isSome h.seated hname) hget).1

theorem Legal.target_ne_of_hits {w : World} (h : Legal w p m)
    (hhits : m.name.hits = true) : m.target ≠ p :=
  h.target_ne (MoveName.aimed_of_hits hhits)

/-! ## The four outcomes -/

/-- How the turn of `p` with the legal move `m` ends on the board; `s₁` is the
state in which the move is logged and `s'` the state after the turn. -/
inductive Outcome (created : List CardRef) (s s₁ : State) (i : TurnInput)
    (p : PlayerRef) (m : Move) (s' : State) : Prop
  | accepted (h : Accepted (logMove s₁ m) m i.round)
      (hshows : Shows created s' [] (s.world.board.act m.name p m.target))
  | won (challenger : PlayerRef) (j : Slot)
      (h : ChallengedBy (logMove s₁ m) m i.round challenger)
      (hseated : challenger ∈ s.world.players) (hne : challenger ≠ p)
      (hin : ¬ s.world.board.Out challenger)
      (hslot : slotOf (s.world.checkhaveCard p m.name) = some j)
      (hshows : Shows created s' []
        (s.world.board.winChallenge p challenger j m.name p m.target))
  | lost (challenger : PlayerRef)
      (h : ChallengedBy (logMove s₁ m) m i.round challenger)
      (hnone : ¬ Holds s.world p m.name)
      (hshows : Shows created s' [] (s.world.board.lose p))
  | dropped (h : Unanswered (logMove s₁ m) m i.round)
      (hshows : Shows created s' [] s.world.board)

/-- The challenger is another player who is still in the game. -/
theorem TakesTurn.challenger (hin : InPlay created w user AIs s)
    {o : Move} (hcaller : m.caller = p) (h : TakesTurn s i p m s₁ s₂ s')
    (hc : Challenges (logMove s₁ m) m o) :
    o.caller ∈ s.world.players ∧ o.caller ≠ p ∧
      ¬ s.world.board.Out o.caller := by
  have hq := h.quiet hin
  refine ⟨hq.evolves.table.players ▸ hc.caller.seated, ?_, ?_⟩
  · rintro heq
    apply hc.caller.other
    rw [heq, hcaller]
  · rw [World.not_out_board]
    exact (hq.isPlayerRevealed o.caller).symm.trans hc.caller.active

theorem TakesTurn.outcome (hin : InPlay created w user AIs s)
    (hmove : s.vc.didPlayerMove = true → Pressed s)
    (h : TakesTurn s i p m s₁ s₂ s') : Outcome created s s₁ i p m s' := by
  obtain ⟨-, o, hmeets, hchallenges, hshows⟩ := h.spec hin hmove
  have hready := h.ready hin hmove
  have hcaller := hready.caller
  cases hmeets with
  | none hfree =>
      rw [turnBoard, hcaller] at hshows
      refine .accepted (fun hopen => ?_) hshows
      rw [hfree] at hopen
      cases hopen
  | some s₃ o hopen hround =>
      simp only [turnBoard, resolveBoard] at hshows
      by_cases hchallenge : o.name = .challenge
      · have hc := hchallenges o rfl hchallenge
        obtain ⟨hseated, hne, hactive⟩ := h.challenger hin hcaller hc
        have hby : ChallengedBy (logMove s₁ m) m i.round o.caller :=
          ⟨hopen, s₃, o, hround, hchallenge, rfl⟩
        rw [if_pos hchallenge] at hshows
        cases hslot : slotOf (s.world.checkhaveCard p m.name) with
        | some j =>
            rw [hslot, hcaller] at hshows
            exact .won o.caller j hby hseated hne hactive hslot hshows
        | none =>
            rw [hslot, hc.target_eq hready] at hshows
            refine .lost o.caller hby ?_ hshows
            rw [holds_iff, hslot]
            rintro ⟨j, ⟨⟩⟩
      · rw [if_neg hchallenge] at hshows
        by_cases hallow : o.name = .allow
        · rw [if_pos hallow, hcaller] at hshows
          exact .accepted (fun _ => ⟨s₃, o, hround, hallow⟩) hshows
        · rw [if_neg hallow] at hshows
          exact .dropped ⟨hopen, s₃, o, hround, hallow, hchallenge⟩ hshows

end Names

end Coup
