import Coup.Game.Footprint

/-!
# A game within its footprint

Besides the effects of moves, a game looks through the table, reacts to the
buttons and sets itself up.  These functions commute with `over` as well, if
all players of the table lie in the footprint.  A function that commutes with
`over` leaves the rest of the heap as it is, which is `Remains`.
-/

namespace Coup

open Coup.Support

/-! ## What reads the table -/

section Table

variable {F : Footprint} {v : World} {s : State} {p : PlayerRef}

theorem over_takeMove (hseats : ∀ q ∈ s.world.players, q ∈ F.players)
    (h : Hands F s.world) (hp : p ∈ s.world.players) (i : AIInput) :
    takeMove (s.over F v) p i =
      (takeMove s p i).map fun r => (r.1.over F v, r.2) := by
  refine ite_map_congr ?_ (fun _ => ?_) fun _ => ?_
  · rw [over_world, over_player (hseats p hp), over_username]
  · exact ite_map_congr Iff.rfl (fun _ => rfl) fun _ => rfl
  · exact bind_map_congr (over_getPlayerMove hseats h hp i) fun r _ => rfl

theorem over_slotHead {m : Move}
    (hseats : ∀ q ∈ s.world.players, q ∈ F.players) (h : Hands F s.world)
    (hcaller : m.caller ∈ F.players) :
    slotHead (s.over F v) m =
      (slotHead s m).map fun r => (r.1.over F v, r.2) := by
  refine bind_congr_map fun player hplayer => ?_
  have hin := hseats player
    (List.mem_of_getElem? (orFault_eq_ok.mp hplayer))
  refine ite_map_congr ?_ (fun _ => rfl) fun _ => rfl
  rw [over_world, over_player hin, over_player hcaller,
    over_isPlayerRevealed h hin]

theorem over_slotUse (curMove : Move) :
    slotUse (s.over F v) curMove =
      (slotUse s curMove).map fun r => (r.1.over F v, r.2) := by
  refine ite_map_congr Iff.rfl (fun _ => ?_) fun _ => ?_
  · exact ite_map_congr Iff.rfl (fun _ => rfl) fun _ => rfl
  · refine ite_map_congr Iff.rfl (fun _ => rfl) fun _ => ?_
    exact bind_congr_map fun _ _ => bind_congr_map fun _ _ => rfl

theorem over_tapAnswer (a : Answer) :
    tapAnswer (s.over F v) a = (tapAnswer s a).map (·.over F v) := by
  have hpressed : answerBtnPressed (s.over F v) a =
      (answerBtnPressed s a).map (·.over F v) :=
    bind_congr_map fun _ _ => bind_congr_map fun _ _ => rfl
  cases a <;> exact hpressed

theorem over_isGameOver (hseats : ∀ q ∈ s.world.players, q ∈ F.players)
    (h : Hands F s.world) (huser : s.vc.user ∈ F.players) :
    isGameOver (s.over F v) = (isGameOver s).map (·.over F v) := by
  have hcount : countFalse (s.over F v) = countFalse s :=
    List.countP_congr fun q hq => by
      rw [over_world, over_isPlayerRevealed h (hseats q hq)]
  refine ite_map_congr ?_ (fun _ => ?_) fun _ => rfl
  · rw [hcount, over_world, over_vc, over_players,
      over_isPlayerRevealed h huser]
  · refine bind_congr_map fun player0 hplayer => ?_
    have hin := hseats player0
      (List.mem_of_getElem? (orFault_eq_ok.mp hplayer))
    rw [over_world, over_isPlayerRevealed h hin]
    rfl

theorem over_enableButtons (hAIs : ∀ q ∈ s.vc.AIs, q ∈ F.players)
    (h : Hands F s.world) :
    enableButtons (s.over F v) = (enableButtons s).over F v := by
  have hany : ((s.over F v).vc.AIs.any fun i =>
        !(s.over F v).world.isPlayerRevealed i &&
          decide (2 ≤ ((s.over F v).world.player i).coins)) =
      s.vc.AIs.any fun i =>
        !s.world.isPlayerRevealed i &&
          decide (2 ≤ (s.world.player i).coins) := by
    rw [Bool.eq_iff_iff, List.any_eq_true, List.any_eq_true]
    refine exists_congr fun q => and_congr_right fun hq => ?_
    rw [over_world, over_isPlayerRevealed h (hAIs q hq),
      over_player (hAIs q hq)]
  simp only [enableButtons, hany]
  rfl

/-! ## The move buttons -/

theorem over_submitMove (name : MoveName) (target : Option PlayerRef) :
    submitMove (s.over F v) name target =
      (submitMove s name target).map (·.over F v) :=
  bind_congr_map fun _ _ => rfl

theorem over_targetDidSet (target : PlayerRef) :
    targetDidSet (s.over F v) target =
      (targetDidSet s target).map (·.over F v) := by
  refine ite_map_congr Iff.rfl (fun _ => over_submitMove ..) fun _ => ?_
  exact ite_map_congr Iff.rfl (fun _ => over_submitMove ..)
    fun _ => over_submitMove ..

theorem over_guardPress {b b' : Bool} {k k' : Except Fault State}
    (hb : b' = b) (hk : k' = k.map (·.over F v)) :
    guardPress b' k' = (guardPress b k).map (·.over F v) := by
  subst hb hk
  cases b' <;> rfl

theorem over_pressButton (hAIs : ∀ q ∈ s.vc.AIs, q ∈ F.players)
    (h : Hands F s.world) (huser : s.vc.user ∈ F.players) (q : Press) :
    pressButton (s.over F v) q = (pressButton s q).map (·.over F v) := by
  have hcoup : coupSheet (s.over F v) = coupSheet s :=
    List.filter_congr fun q hq => by
      simp only [over_world, over_isPlayerRevealed h (hAIs q hq)]
  have hassassinate : assassinateSheet (s.over F v) = assassinateSheet s :=
    hcoup
  have hsteal : stealSheet (s.over F v) = stealSheet s :=
    List.filter_congr fun q hq => by
      simp only [over_world, over_isPlayerRevealed h (hAIs q hq),
        over_player (hAIs q hq)]
  cases q with
  | income | foreignAid | tax | exchange =>
      exact over_guardPress rfl (over_submitMove ..)
  | coup target =>
      refine over_guardPress ?_ (over_targetDidSet
        (s := targetMoveSelected s false false true) target)
      rw [over_world, over_vc, over_player huser, hcoup]
  | steal target =>
      refine over_guardPress ?_ (over_targetDidSet
        (s := targetMoveSelected s true false false) target)
      rw [over_vc, hsteal]
  | assassinate target =>
      refine over_guardPress ?_ (over_targetDidSet
        (s := targetMoveSelected s false true false) target)
      rw [over_world, over_vc, over_player huser, hassassinate]

end Table

/-! ## Setting up a game -/

section Setup

variable {F : Footprint} {w v : World} {base : CardRef}

theorem createCards_card_of_notMem {c : CardRef}
    (hc : c ∉ createdCards base) : (w.createCards base).card c = w.card c := by
  simp only [World.createCards]
  split
  next hle =>
    have hnone : createdRoles[c - base]? = none := by
      rw [List.getElem?_eq_none_iff]
      by_contra hlt
      refine hc (List.mem_map.mpr ⟨c - base, ?_, Nat.add_sub_cancel' hle⟩)
      exact List.mem_range.mpr (Nat.lt_of_not_le hlt)
    rw [hnone]
  next => rfl

theorem createCards_card_of_mem {c : CardRef} (hc : c ∈ createdCards base) :
    (w.createCards base).card c = (v.createCards base).card c := by
  obtain ⟨k, hk, rfl⟩ := List.mem_map.mp hc
  have hlt : k < createdRoles.length := List.mem_range.mp hk
  simp only [World.createCards, Nat.le_add_right, if_true,
    Nat.add_sub_cancel_left, List.getElem?_eq_getElem hlt]

open Classical in
theorem over_createCards (hcards : ∀ c ∈ createdCards base, c ∈ F.cards) :
    (w.over F v).createCards base = (w.createCards base).over F v := by
  have hcard : ((w.over F v).createCards base).card =
      ((w.createCards base).over F v).card := by
    funext c
    by_cases hmem : c ∈ createdCards base
    · rw [over_card (hcards c hmem)]
      exact createCards_card_of_mem hmem
    · rw [createCards_card_of_notMem hmem]
      by_cases hc : c ∈ F.cards
      · rw [over_card hc, over_card hc, createCards_card_of_notMem hmem]
      · rw [over_card_of_notMem hc, over_card_of_notMem hc]
  exact congrArg (fun card => World.mk card _ _ _ _) hcard

theorem over_assign2Cards {players : List PlayerRef} {cardDeck : CardDeck}
    {draws : List ℕ} (hplayers : ∀ p ∈ players, p ∈ F.players) :
    assign2Cards (w.over F v) cardDeck players draws =
      (assign2Cards w cardDeck players draws).map
        fun r => (r.1.over F v, r.2) := by
  induction players generalizing w cardDeck draws with
  | nil => rfl
  | cons p players ih =>
      have hp := hplayers p List.mem_cons_self
      refine bind_congr_map fun r₁ _ => bind_congr_map fun r₂ _ => ?_
      simp only [over_setSlot hp]
      exact ih fun q hq => hplayers q (List.mem_cons_of_mem _ hq)

theorem over_viewDidLoad (hcards : ∀ c ∈ createdCards base, c ∈ F.cards)
    (hplayers : ∀ p ∈ w.players, p ∈ F.players) (shuffling dealing : List ℕ) :
    viewDidLoad (w.over F v) base shuffling dealing =
      (viewDidLoad w base shuffling dealing).map (·.over F v) := by
  refine bind_congr_map fun cardDeck _ => ?_
  rw [over_createCards hcards]
  refine bind_map_congr (over_assign2Cards hplayers) fun r _ => ?_
  exact bind_congr_map fun user _ => rfl

end Setup

/-! ## The rest of the heap -/

/-- `w'` differs from `w` at most in the objects of the footprint. -/
structure Remains (F : Footprint) (w w' : World) : Prop where
  player : ∀ p ∉ F.players, w'.player p = w.player p
  card : ∀ c ∉ F.cards, w'.card c = w.card c

namespace Remains

variable {F : Footprint} {w w' : World}

theorem refl (w : World) : Remains F w w :=
  ⟨fun _ _ => rfl, fun _ _ => rfl⟩

theorem of_over (h : w'.over F w = w') : Remains F w w' where
  player p hp := by
    rw [← h, over_player_of_notMem hp]
  card c hc := by
    rw [← h, over_card_of_notMem hc]

/-- A computation that commutes with `over` leaves the rest of the heap as it
is. -/
theorem of_map {α : Type} {c : Except Fault α} {a : α} {g : α → α}
    (world : α → World) (hover : c = c.map g)
    (hworld : ∀ a, world (g a) = (world a).over F w) (h : c = .ok a) :
    Remains F w (world a) := by
  rw [h] at hover
  have ha : a = g a := Except.ok.inj hover
  exact of_over ((hworld a).symm.trans (congrArg world ha.symm))

end Remains

section Rest

variable {F : Footprint} {s s' : State} {p : PlayerRef}

theorem state_over_self : s.over F s.world = s := by
  rw [State.over, over_self]

theorem revealCard_remains {w : World} (h : Owns F s) (hp : p ∈ F.players)
    (hreveal : s.world.revealCard p = .ok w) : Remains F s.world w := by
  have hover := over_revealCard (v := s.world) h.hands hp
  rw [over_self] at hover
  exact .of_map id hover (fun _ => rfl) hreveal

theorem actOnMove_remains {m : Move} {i : ExchangeInput} (h : Owns F s)
    (huser : m.AsksUser s.world → s.vc.user ∈ F.players) (hm : m.Within F)
    (hact : actOnMove s m i = .ok s') : Remains F s.world s'.world := by
  have hover := over_actOnMove (v := s.world) h huser hm i
  rw [state_over_self] at hover
  exact .of_map State.world hover (fun _ => rfl) hact

theorem showClaim_remains {challenger : PlayerRef} {theCard : ℤ} {draw : ℕ}
    {newCard : CardRef} (h : Owns F s) (hp : p ∈ F.players)
    (hc : challenger ∈ F.players)
    (hshow : showClaim s p challenger theCard draw = .ok (s', newCard)) :
    Remains F s.world s'.world := by
  have hover := over_showClaim (v := s.world) h hp hc theCard draw
  rw [state_over_self] at hover
  exact .of_map (fun r => r.1.world) hover (fun _ => rfl) hshow

theorem replaceClaim_remains {theCard : ℤ} {newCard : CardRef}
    {draws : List ℕ} (h : Owns F s) (hp : p ∈ F.players)
    (hnew : newCard ∈ F.cards)
    (hreplace : replaceClaim s p theCard newCard draws = .ok s') :
    Remains F s.world s'.world := by
  have hover := over_replaceClaim (v := s.world) h hp hnew theCard draws
  rw [state_over_self] at hover
  exact .of_map State.world hover (fun _ => rfl) hreplace

end Rest

end Coup
