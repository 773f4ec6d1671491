import AbbrevSite.Proofs.Sheet.Plain

/-! Where the statement being read starts. Its prelude is made of the characters from its first significant
one on, whatever was read before; between statements there are only blanks after a delimiter. -/
namespace AbbrevSite.Sheet.Reading

open Document

variable {d : Document} {a x y : Position} {r s t : Reading}

/-- A prelude that is read from `y` to `x`. -/
structure PreludeFrom (d : Document) (y x : Position) (q : Prelude) : Prop where
  start_eq : q.start = y
  significant : CharClass.isBlank (d.readAt y) = false
  noDelimiter : d.Throughout (¬ IsDelimiter ·) y x
  reads : ∀ s : Reading, s.prelude = none → run d s (d.row y x) = .ok { s with prelude := some q }

/-- The blanks before a statement, back to the delimiter before them or to `a`. -/
structure GapFrom (d : Document) (a e x : Position) : Prop where
  valid : d.Valid e
  le_start : a ≤ e
  le_stop : e ≤ x
  blank : d.Throughout (CharClass.isBlank · = true) e x
  ends : e = a ∨ IsDelimiter (d.readAt (d.prev e))

lemma step_char {c : Char} (h : ¬ IsDelimiter c) :
    Step d r ⟨.char c, x, y⟩ (r.addToPrelude ⟨.char c, x, y⟩) := by
  simp only [IsDelimiter, not_or] at h
  exact .other (by simp) (by simpa using h.1) (by simpa using h.2.1) (by simpa using h.2.2)

lemma step_letter_other (h : ¬ IsDelimiter (d.readAt x)) :
    Step d r (d.letter x) (r.addToPrelude (d.letter x)) := step_char h

lemma Step.letter (h : Step d r (d.letter x) s) :
    IsDelimiter (d.readAt x) ∧ s.prelude = none ∨
      ¬ IsDelimiter (d.readAt x) ∧ s = r.addToPrelude (d.letter x) := by
  cases h with
  | comment h => cases h
  | opening h => exact .inl ⟨.inl (by simpa using h), rfl⟩
  | closing h => exact .inl ⟨.inr (.inl (by simpa using h)), by simp [afterClosing]⟩
  | semicolon h => exact .inl ⟨.inr (.inr (by simpa using h)), by simp⟩
  | other _ h2 h3 h4 =>
    refine .inr ⟨?_, rfl⟩
    rintro (h | h | h)
    · exact h2 (by simp [h])
    · exact h3 (by simp [h])
    · exact h4 (by simp [h])

lemma addToPrelude_of_none (h : r.prelude = none) :
    r.addToPrelude (d.letter x) =
      if CharClass.isBlank (d.readAt x) then r
      else { r with prelude := some (.ofFirst (d.letter x)) } := by
  unfold addToPrelude
  rw [h]
  rfl

/-- What is being read after a window: nothing since the last delimiter, or a statement. -/
theorem run_statement (ha : d.Valid a) (hx : d.Valid x) (hax : a ≤ x) (hnone : s.prelude = none)
    (hr : run d s (d.row a x) = .ok r) :
    r.prelude = none ∧ (∃ e, GapFrom d a e x) ∨
      ∃ q y t, d.Valid y ∧ a ≤ y ∧ y < x ∧ PreludeFrom d y x q ∧
        run d s (d.row a y) = .ok t ∧ t.prelude = none ∧ r = { t with prelude := some q } := by
  induction x, hx using backward_induction generalizing r with
  | base =>
    have h0 : a = .origin := le_antisymm hax (Position.origin_le a)
    rw [h0, row_self] at hr
    cases hr
    exact .inl ⟨hnone, .origin, valid_origin d, le_of_eq h0, le_refl _, throughout_self, .inl h0.symm⟩
  | step x hx h0 ih =>
    rcases lt_or_eq_of_le hax with hlt | rfl
    · have hprev := prev_lt (d := d) h0
      have hv := valid_prev hx
      have hle := le_prev ha hx hlt
      obtain ⟨r₁, hr₁, hstep⟩ := (run_row_concat ha hx hlt).1 hr
      rcases hstep.letter with ⟨hdel, hp⟩ | ⟨hno, rfl⟩
      · exact .inl ⟨hp, x, hx, hax, le_refl x, throughout_self, .inr hdel⟩
      · rcases ih hle hr₁ with ⟨hp, e, he⟩ | ⟨q, y, t, hy, hay, hyx, hq, ht, htn, rfl⟩
        · rw [addToPrelude_of_none hp]
          cases hb : CharClass.isBlank (d.readAt (d.prev x)) with
          | true =>
            rw [if_pos rfl]
            exact .inl ⟨hp, e, he.valid, he.le_start, he.le_stop.trans (le_of_lt hprev),
              he.blank.concat hx hb, he.ends⟩
          | false =>
            rw [if_neg Bool.false_ne_true]
            refine .inr ⟨.ofFirst (d.letter (d.prev x)), d.prev x, r₁, hv, hle, hprev,
              ⟨Prelude.ofFirst_start, hb, ?_, ?_⟩, hr₁, hp, rfl⟩
            · exact throughout_self.concat hx hno
            · intro s hs
              rw [row_concat hv hx hprev, row_self, List.nil_append]
              refine run_cons.2 ⟨_, step_letter_other hno, ?_⟩
              rw [addToPrelude_of_none hs, if_neg (by simp [hb])]
              rfl
        · refine .inr ⟨q.add (d.letter (d.prev x)), y, t, hy, hay, hyx.trans hprev,
            ⟨?_, hq.significant, hq.noDelimiter.concat hx hno, ?_⟩, ht, htn,
            addToPrelude_of_some rfl⟩
          · rw [Prelude.add_start, hq.start_eq]
          · intro s hs
            exact (run_row_concat hy hx (hyx.trans hprev)).2
              ⟨_, hq.reads s hs, addToPrelude_of_some (r := { s with prelude := some q }) rfl ▸
                step_letter_other hno⟩
    · rw [row_self] at hr
      cases hr
      exact .inl ⟨hnone, a, ha, le_refl a, le_refl a, throughout_self, .inl rfl⟩

end AbbrevSite.Sheet.Reading
