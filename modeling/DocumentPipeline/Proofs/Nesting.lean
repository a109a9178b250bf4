import DocumentPipeline.Proofs.Lexing
import DocumentPipeline.Proofs.Trees

/-! # Values inside open frames

The tokens of a value are taken in the same way whatever frames stand around it: they put its tree
into the frames, and what follows is taken from there. A value that stands in some frames can
therefore be taken out and built on its own.
-/
namespace DocumentPipeline.Json

section Faults

theorem isSome_breakOff {v : Node} (h : v.skipFault?.isSome = true) (fs : List Frame) :
    (breakOff v fs).skipFault?.isSome = true := by
  induction fs generalizing v with
  | nil => exact h
  | cons f fs ih =>
    refine ih ?_
    cases f <;> exact h

theorem isSome_breakFrame (f : Fault) (fs : List Frame) :
    (breakFrame f fs).skipFault?.isSome = true := by
  cases fs with
  | nil => rfl
  | cons g fs => exact isSome_breakOff (by cases g <;> rfl) fs

theorem isSome_breakName (t : Option Token) (fs : List Frame) :
    (breakName t fs).skipFault?.isSome = true := by
  unfold breakName
  split
  · exact isSome_breakOff rfl _
  · exact isSome_breakFrame _ _

theorem isSome_atEnd (fs : List Frame) (want : Want) :
    (atEnd fs want).skipFault?.isSome = true := by
  cases want with
  | value | colon => exact isSome_breakOff rfl _
  | firstItem | next => exact isSome_breakFrame _ _
  | firstName | name => exact isSome_breakName _ _

end Faults

section Frames

variable {fs gs : List Frame} {want : Want} {t : Token} {ts rest : List Token} {v : Node}

/-- What a token leads to inside some frames, and what it leads to if there are more frames around
them. -/
inductive Extends (fs : List Frame) : Move → Move → Prop
  | more {gs : List Frame} {want : Want} (h : gs ≠ []) :
      Extends fs (.inl (gs, want)) (.inl (gs ++ fs, want))
  | done {v : Node} (h : v.skipFault? = none) : Extends fs (.inr v) (settle v fs)
  | broken {u v : Node} (hu : u.skipFault?.isSome = true) (hv : v.skipFault?.isSome = true) :
      Extends fs (.inr u) (.inr v)

theorem settle_append (v : Node) (gs fs : List Frame) :
    Extends fs (settle v gs) (settle v (gs ++ fs)) := by
  cases hv : v.skipFault? with
  | some f =>
    have hbroken : v.skipFault?.isSome = true := by rw [hv]; rfl
    have hbreak (fs : List Frame) : settle v fs = .inr (breakOff v fs) := if_pos hbroken
    rw [hbreak, hbreak]
    exact .broken (isSome_breakOff hbroken _) (isSome_breakOff hbroken _)
  | none =>
    cases gs with
    | nil =>
      have hend : settle v [] = .inr v := by simp [settle, hv]
      rw [hend]
      exact .done hv
    | cons g gs =>
      have hplace (fs : List Frame) : settle v (g :: fs) = .inl (g.place v :: fs, .next) := by
        simp [settle, hv]
      rw [List.cons_append, hplace, hplace]
      exact .more (by simp)

theorem takeValue_append (gs fs : List Frame) (t : Token) :
    Extends fs (takeValue gs t) (takeValue (gs ++ fs) t) := by
  unfold takeValue
  split
  · exact .more (by simp)
  · exact .more (by simp)
  · split
    · exact settle_append _ _ _
    · exact .broken (isSome_breakOff rfl _) (isSome_breakOff rfl _)

theorem takeName_append (hgs : gs ≠ []) (fs : List Frame) (t : Token) :
    Extends fs (takeName gs t) (takeName (gs ++ fs) t) := by
  obtain ⟨g, gs, rfl⟩ := List.exists_cons_of_ne_nil hgs
  unfold takeName
  split
  · next name done frames hframes =>
    obtain ⟨rfl, rfl⟩ := List.cons.inj hframes
    rw [List.cons_append]
    dsimp only
    split_ifs with hfault
    · exact .broken (isSome_breakOff (by exact hfault) _) (isSome_breakOff (by exact hfault) _)
    · exact .more (by simp)
  · next hmisfit =>
    rw [List.cons_append]
    split
    · next name done frames hframes =>
      obtain ⟨rfl, -⟩ := List.cons.inj hframes
      exact absurd rfl (hmisfit name done gs rfl)
    · exact .broken (isSome_breakName _ _) (isSome_breakName _ _)

theorem take_firstItem (h : t ≠ .closeBracket) (fs : List Frame) :
    take fs .firstItem t = takeValue fs t := by
  cases t <;> first | rfl | exact absurd rfl h

theorem take_firstName (h : t ≠ .closeBrace) (fs : List Frame) :
    take fs .firstName t = takeName fs t := by
  cases t <;> first | rfl | exact absurd rfl h

theorem take_append (h : gs ≠ [] ∨ want = .value) (fs : List Frame) (t : Token) :
    Extends fs (take gs want t) (take (gs ++ fs) want t) := by
  by_cases hwant : want = .value
  · subst hwant
    exact takeValue_append gs fs t
  have hgs := h.resolve_right hwant
  obtain ⟨g, gs, rfl⟩ := List.exists_cons_of_ne_nil hgs
  cases want with
  | value => exact absurd rfl hwant
  | firstItem =>
    by_cases ht : t = .closeBracket
    · subst ht
      exact settle_append _ _ _
    · rw [take_firstItem ht, take_firstItem ht]
      exact takeValue_append (g :: gs) fs t
  | firstName =>
    by_cases ht : t = .closeBrace
    · subst ht
      exact settle_append _ _ _
    · rw [take_firstName ht, take_firstName ht]
      exact takeName_append hgs fs t
  | name => exact takeName_append hgs fs t
  | colon =>
    cases t with
    | colon => exact .more (by simp)
    | _ => exact .broken (isSome_breakOff rfl _) (isSome_breakOff rfl _)
  | next =>
    have hbroken : Extends fs (.inr (breakFrame .malformed (g :: gs)))
        (.inr (breakFrame .malformed (g :: gs ++ fs))) :=
      .broken (isSome_breakFrame _ _) (isSome_breakFrame _ _)
    cases t with
    | comma =>
      cases g with
      | items | members => exact .more (by simp)
      | naming => exact hbroken
    | closeBracket =>
      cases g with
      | items => exact settle_append _ _ _
      | members | naming => exact hbroken
    | closeBrace =>
      cases g with
      | members => exact settle_append _ _ _
      | items | naming => exact hbroken
    | _ => exact hbroken

/-- Around a value that is whole there can be frames, and something can follow it. -/
theorem build_append (h : gs ≠ [] ∨ want = .value) (hbuild : build gs want ts = (v, []))
    (hv : v.skipFault? = none) (fs : List Frame) (rest : List Token) :
    build (gs ++ fs) want (ts ++ rest) = resume (settle v fs) rest := by
  induction ts generalizing gs want with
  | nil =>
    have hend := isSome_atEnd gs want
    obtain rfl : atEnd gs want = v := congrArg Prod.fst hbuild
    rw [hv] at hend
    cases hend
  | cons t ts ih =>
    rw [build_cons] at hbuild
    rw [List.cons_append, build_cons]
    have hextends := take_append h fs t
    generalize take gs want t = m at hextends hbuild
    generalize take (gs ++ fs) want t = m' at hextends
    -- the outer frames are not reached before the value is whole
    cases hextends with
    | more h => exact ih (.inl h) hbuild
    | done h =>
      obtain ⟨rfl, rfl⟩ := Prod.mk.inj hbuild
      rfl
    | broken hu =>
      obtain ⟨rfl, -⟩ := Prod.mk.inj hbuild
      rw [hv] at hu
      cases hu

/-- A value that stands in some frames can be built on its own. -/
theorem exists_build_eq (h : gs ≠ [] ∨ want = .value)
    (hbuild : build (gs ++ fs) want ts = (v, [])) (hv : v.skipFault? = none) :
    ∃ us rest u, ts = us ++ rest ∧ build gs want us = (u, []) ∧ u.skipFault? = none ∧
      resume (settle u fs) rest = (v, []) := by
  induction ts generalizing gs want with
  | nil =>
    have hend := isSome_atEnd (gs ++ fs) want
    obtain rfl : atEnd (gs ++ fs) want = v := congrArg Prod.fst hbuild
    rw [hv] at hend
    cases hend
  | cons t ts ih =>
    rw [build_cons] at hbuild
    have hextends := take_append h fs t
    generalize htake : take gs want t = m at hextends
    generalize take (gs ++ fs) want t = m' at hextends hbuild
    cases hextends with
    | more h =>
      obtain ⟨us, rest, u, rfl, hus, hu, hrest⟩ := ih (.inl h) hbuild
      exact ⟨t :: us, rest, u, rfl, by rw [build_cons, htake]; exact hus, hu, hrest⟩
    | @done u hu => exact ⟨[t], ts, u, rfl, by rw [build_cons, htake]; rfl, hu, hbuild⟩
    | broken _ hu =>
      obtain ⟨rfl, -⟩ := Prod.mk.inj hbuild
      rw [hv] at hu
      cases hu

/-- A token that breaks off breaks the value off. -/
theorem isSome_take (ht : t.isLast = true) :
    ∃ u, take fs want t = .inr u ∧ u.skipFault?.isSome = true := by
  have hvalue : ∃ u, takeValue fs t = .inr u ∧ u.skipFault?.isSome = true := by
    cases t with
    | text name =>
      have hfault : (Node.text name).skipFault?.isSome = true := ht
      exact ⟨breakOff (.text name) fs,
        by simp only [takeValue, Token.scalar?, settle, if_pos hfault], isSome_breakOff hfault _⟩
    | scrap s f =>
      have hfault : (Node.scrap s f).skipFault?.isSome = true := by cases s <;> rfl
      exact ⟨breakOff (.scrap s f) fs,
        by simp only [takeValue, Token.scalar?, settle, if_pos hfault], isSome_breakOff hfault _⟩
    | _ => cases ht
  have hname : ∃ u, takeName fs t = .inr u ∧ u.skipFault?.isSome = true := by
    unfold takeName
    split
    · next name done frames =>
      have hfault : name.fault.isSome = true := ht
      rw [if_pos hfault]
      exact ⟨_, rfl, isSome_breakOff (by exact hfault) _⟩
    · exact ⟨_, rfl, isSome_breakName _ _⟩
  have hclose : t ≠ .closeBracket ∧ t ≠ .closeBrace ∧ t ≠ .colon := by
    refine ⟨?_, ?_, ?_⟩ <;> rintro rfl <;> cases ht
  cases want with
  | value => exact hvalue
  | firstItem => rw [take_firstItem hclose.1]; exact hvalue
  | firstName => rw [take_firstName hclose.2.1]; exact hname
  | name => exact hname
  | colon =>
    cases t with
    | text | scrap => exact ⟨_, rfl, isSome_breakOff rfl _⟩
    | _ => cases ht
  | next =>
    cases t with
    | text | scrap => exact ⟨_, rfl, isSome_breakFrame _ _⟩
    | _ => cases ht

/-- No value is whole in which a token breaks off. -/
theorem isLast_of_build (hbuild : build fs want ts = (v, [])) (hv : v.skipFault? = none) :
    ∀ t ∈ ts, t.isLast = false := by
  induction ts generalizing fs want with
  | nil => simp
  | cons t ts ih =>
    rw [build_cons] at hbuild
    have ht : t.isLast = false := by
      by_contra hlast
      obtain ⟨u, hu, hbroken⟩ : ∃ u, take fs want t = .inr u ∧ u.skipFault?.isSome = true :=
        isSome_take (by simpa using hlast)
      rw [hu] at hbuild
      obtain ⟨rfl, -⟩ := Prod.mk.inj hbuild
      rw [hv] at hbroken
      cases hbroken
    intro u hu
    rcases List.mem_cons.mp hu with rfl | hu
    · exact ht
    cases hm : take fs want t with
    | inl next => exact ih (by rw [hm] at hbuild; exact hbuild) u hu
    | inr w =>
      rw [hm] at hbuild
      obtain ⟨-, rfl⟩ := Prod.mk.inj hbuild
      cases hu

end Frames

end DocumentPipeline.Json
