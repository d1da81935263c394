import Coup.Threads.Display

/-!
# What a block does to the pictures

Only two blocks of the main queue are about the pictures of the user's cards:
the one that tells of a card that is revealed, which sends the other, and the
other, which turns the picture over.  All others keep the pictures, or show the
ones that are kept.
-/

namespace Coup

open Coup.Support

/-! ## What a block does to the pictures -/

namespace GameScreen

variable (x : GameScreen) (s : State)

/-- The view that shows a card of the user. -/
def cardImageView : Slot → CardImage
  | .first => x.card1ImageView
  | .second => x.card2ImageView

/-- The picture that `setupUser` puts into this view. -/
def currentUserCard : Slot → CardImage
  | .first => x.currentUserCard1
  | .second => x.currentUserCard2

/-- The pictures stay, and a view shows what it showed or the picture. -/
def KeepsPictures (x x' : GameScreen) : Prop :=
  ∀ j, x'.currentUserCard j = x.currentUserCard j ∧
    (x'.cardImageView j = x.cardImageView j ∨
      x'.cardImageView j = x.currentUserCard j)

variable {x} {s}

theorem KeepsPictures.trans {x₁ x₂ : GameScreen} (h₁ : KeepsPictures x x₁)
    (h₂ : KeepsPictures x₁ x₂) : KeepsPictures x x₂ := by
  intro j
  obtain ⟨hkept₁, hview₁⟩ := h₁ j
  obtain ⟨hkept₂, hview₂⟩ := h₂ j
  refine ⟨hkept₂.trans hkept₁, ?_⟩
  rcases hview₂ with hview₂ | hview₂
  · rwa [hview₂]
  · exact .inr (hview₂.trans hkept₁)

theorem reloadData_pictures : Ensures (KeepsPictures x) (x.reloadData s) := by
  apply Ensures.bind
  intro rows _
  exact ensures_ok fun j => by cases j <;> exact ⟨rfl, .inl rfl⟩

theorem showUser_pictures (w : World) (user : PlayerRef) :
    KeepsPictures x (x.showUser w user) :=
  fun j => by cases j <;> exact ⟨rfl, .inr rfl⟩

theorem setupUser_pictures :
    Ensures (fun r => KeepsPictures x r.2) (x.setupUser s) := by
  apply Ensures.bind
  intro user _
  exact ensures_ok (showUser_pictures _ _)

theorem highlightPlayer_pictures {index : ℕ} {color : CellColor} :
    Ensures (KeepsPictures x) (x.highlightPlayer s index color) := by
  refine .ite (fun _ => ensures_ok ?_) fun _ => .ite (fun _ => ?_)
    fun _ => ensures_error _
  · exact fun j => by cases j <;> exact ⟨rfl, .inl rfl⟩
  · intro x' hx'
    have hrows := reloadData_pictures x' hx'
    exact fun j => by cases j <;> exact hrows _

theorem dismissHighlights_pictures :
    Ensures (KeepsPictures x) (x.dismissHighlights s) := by
  refine .ite (fun _ => ensures_error _) fun _ => ?_
  intro x' hx'
  have hrows := reloadData_pictures x' hx'
  exact fun j => by cases j <;> exact hrows _

theorem turnOver_currentUserCard (i j : Slot) :
    (x.turnOver s i).currentUserCard j =
      if j = i then .photo (s.world.held s.vc.user i).role
      else x.currentUserCard j := by
  cases i <;> cases j <;> rfl

theorem turnOver_cardImageView (i j : Slot) :
    (x.turnOver s i).cardImageView j =
      if j = i then .photo (s.world.held s.vc.user i).role
      else x.cardImageView j := by
  cases i <;> cases j <;> rfl

end GameScreen

/-- What a block does to the pictures and to the blocks that wait. -/
inductive Paints (d d' : Display) (s : State) : ScreenBlock → Prop
  | turnOver (i : Slot) (hscreen : d'.screen = d.screen.turnOver s i)
      (hblocks : d'.blocks = d.blocks) : Paints d d' s (.turnOver i)
  | tell (p : PlayerRef) (i : Slot)
      (hname : (s.world.player p).name = s.world.username)
      (hscreen : d'.screen = d.screen)
      (hblocks : d'.blocks = d.blocks ++ [.turnOver i]) :
      Paints d d' s (.tellReveal p i)
  | ignore (p : PlayerRef) (i : Slot)
      (hname : (s.world.player p).name ≠ s.world.username)
      (hscreen : d'.screen = d.screen) (hblocks : d'.blocks = d.blocks) :
      Paints d d' s (.tellReveal p i)
  | other {block : ScreenBlock} (hover : ∀ i, block ≠ .turnOver i)
      (htell : ∀ p i, block ≠ .tellReveal p i)
      (hscreen : d.screen.KeepsPictures d'.screen)
      (hblocks : d'.blocks = d.blocks) : Paints d d' s block

theorem runBlock_paints {d d' : Display} {s : State} {block : ScreenBlock}
    (h : d.runBlock s block = .ok d') : Paints d d' s block := by
  cases block with
  | showTurn =>
      obtain ⟨x₁, hx₁, h⟩ := bind_eq_ok.mp h
      obtain ⟨x₂, hx₂, h⟩ := bind_eq_ok.mp h
      cases h
      have hclear := GameScreen.dismissHighlights_pictures x₁ hx₁
      exact .other (by simp) (by simp)
        (hclear.trans (GameScreen.highlightPlayer_pictures x₂ hx₂)) rfl
  | showAsked =>
      obtain ⟨x₁, hx₁, h⟩ := bind_eq_ok.mp h
      cases h
      exact .other (by simp) (by simp)
        (GameScreen.highlightPlayer_pictures x₁ hx₁) rfl
  | dismissHighlights =>
      obtain ⟨x₁, hx₁, h⟩ := bind_eq_ok.mp h
      cases h
      exact .other (by simp) (by simp)
        (GameScreen.dismissHighlights_pictures x₁ hx₁) rfl
  | tellReveal p i =>
      rw [Display.runBlock] at h
      split at h
      next hname => cases h; exact .tell p i hname rfl rfl
      next hname => cases h; exact .ignore p i hname rfl rfl
  | turnOver i => cases h; exact .turnOver i rfl rfl
  | setupUser =>
      obtain ⟨⟨s', x₁⟩, hx₁, h⟩ := bind_eq_ok.mp h
      cases h
      exact .other (by simp) (by simp) (GameScreen.setupUser_pictures _ hx₁) rfl
  | refresh =>
      obtain ⟨⟨s', x₁⟩, hx₁, h⟩ := bind_eq_ok.mp h
      obtain ⟨x₂, hx₂, h⟩ := bind_eq_ok.mp h
      cases h
      have hshown := GameScreen.setupUser_pictures _ hx₁
      exact .other (by simp) (by simp)
        (hshown.trans (GameScreen.reloadData_pictures x₂ hx₂)) rfl

/-- A block waits that will turn over the picture of this position. -/
def Turning (blocks : List ScreenBlock) (p : PlayerRef) (j : Slot) : Prop :=
  .tellReveal p j ∈ blocks ∨ .turnOver j ∈ blocks

theorem Turning.append {blocks : List ScreenBlock} {p : PlayerRef} {j : Slot}
    (h : Turning blocks p j) (more : List ScreenBlock) :
    Turning (blocks ++ more) p j :=
  h.imp (List.mem_append_left _) (List.mem_append_left _)

section Paints

variable {d d' : Display} {s : State} {block : ScreenBlock} {p : PlayerRef}
  {j : Slot}

/-- A block for the user's card waits until the picture is turned over. -/
theorem Paints.turning (h : Paints d d' s block)
    (huser : (s.world.player p).name = s.world.username)
    (hturning : Turning (block :: d.blocks) p j) :
    Turning d'.blocks p j ∨ block = .turnOver j := by
  unfold Turning at hturning
  simp only [List.mem_cons] at hturning
  cases h with
  | turnOver i hscreen hblocks =>
      rw [hblocks]
      rcases hturning with (htell | htell) | (hover | hover)
      · cases htell
      · exact .inl (.inl htell)
      · exact .inr hover.symm
      · exact .inl (.inr hover)
  | tell q i hname hscreen hblocks =>
      left
      rw [hblocks]
      rcases hturning with (htell | htell) | (hover | hover)
      · cases htell
        exact .inr (List.mem_append_right _ (List.mem_singleton_self _))
      · exact .inl (List.mem_append_left _ htell)
      · cases hover
      · exact .inr (List.mem_append_left _ hover)
  | ignore q i hname hscreen hblocks =>
      left
      rw [hblocks]
      rcases hturning with (htell | htell) | (hover | hover)
      · cases htell
        exact absurd huser hname
      · exact .inl htell
      · cases hover
      · exact .inr hover
  | other hover htell hscreen hblocks =>
      left
      rw [hblocks]
      rcases hturning with (heq | hin) | (heq | hin)
      · exact absurd heq.symm (htell p j)
      · exact .inl hin
      · exact absurd heq.symm (hover j)
      · exact .inr hin

/-- A block that waits was waiting before, or is sent for the user. -/
theorem Paints.turning_of (h : Paints d d' s block)
    (hturning : Turning d'.blocks p j) :
    Turning (block :: d.blocks) p j ∨
      ∃ q, block = .tellReveal q j ∧
        (s.world.player q).name = s.world.username := by
  have hlater (blocks : List ScreenBlock) (h : Turning blocks p j) :
      Turning (block :: blocks) p j :=
    h.imp (List.mem_cons_of_mem _) (List.mem_cons_of_mem _)
  cases h with
  | turnOver i hscreen hblocks | ignore _ i _ hscreen hblocks
  | other _ _ hscreen hblocks =>
      rw [hblocks] at hturning
      exact .inl (hlater _ hturning)
  | tell q i hname hscreen hblocks =>
      rw [hblocks] at hturning
      unfold Turning at hturning
      simp only [List.mem_append, List.mem_singleton] at hturning
      rcases hturning with (htell | htell) | (hover | hover)
      · exact .inl (hlater _ (.inl htell))
      · cases htell
      · exact .inl (hlater _ (.inr hover))
      · cases hover
        exact .inr ⟨q, rfl, hname⟩

/-- A block that tells of a card comes from the thread. -/
theorem Paints.told (h : Paints d d' s block)
    (htell : .tellReveal p j ∈ d'.blocks) : .tellReveal p j ∈ d.blocks := by
  cases h with
  | turnOver i hscreen hblocks | ignore _ i _ hscreen hblocks
  | other _ _ hscreen hblocks => rwa [hblocks] at htell
  | tell q i hname hscreen hblocks =>
      rw [hblocks, List.mem_append, List.mem_singleton] at htell
      rcases htell with htell | htell
      · exact htell
      · cases htell

theorem Paints.picture (h : Paints d d' s block) (j : Slot) :
    d'.screen.currentUserCard j = d.screen.currentUserCard j ∧
        block ≠ .turnOver j ∨
      block = .turnOver j ∧ d'.screen.currentUserCard j =
        .photo (s.world.held s.vc.user j).role := by
  cases h with
  | turnOver i hscreen hblocks =>
      rw [hscreen, GameScreen.turnOver_currentUserCard]
      by_cases hj : j = i
      · subst hj
        exact .inr ⟨rfl, if_pos rfl⟩
      · refine .inl ⟨if_neg hj, ?_⟩
        rintro ⟨⟩
        exact hj rfl
  | tell _ _ _ hscreen | ignore _ _ _ hscreen =>
      rw [hscreen]
      exact .inl ⟨rfl, by simp⟩
  | other hover htell hscreen hblocks =>
      exact .inl ⟨(hscreen j).1, hover j⟩

theorem Paints.views (h : Paints d d' s block)
    (hviews : ∀ j, d.screen.cardImageView j = d.screen.currentUserCard j) :
    ∀ j, d'.screen.cardImageView j = d'.screen.currentUserCard j := by
  intro j
  cases h with
  | turnOver i hscreen hblocks =>
      rw [hscreen, GameScreen.turnOver_currentUserCard,
        GameScreen.turnOver_cardImageView, hviews]
  | tell _ _ _ hscreen | ignore _ _ _ hscreen =>
      rw [hscreen]
      exact hviews j
  | other hover htell hscreen hblocks =>
      obtain ⟨hkept, hview | hview⟩ := hscreen j
      · rw [hview, hkept, hviews]
      · rw [hview, hkept]

end Paints

end Coup
