import CppRag.JsonReader

/-!
The JSON reader on arbitrary bytes: every read is inside the text, every position it returns is
past the position it was given and at most the size of the text, and fuel of twice the size of
the text and one is enough. More fuel than that changes nothing.
-/
namespace CppRag.Json
open Characters Observed Slice

/-- Reads inside the text, enough fuel, and a normal result with the property. -/
abbrev Reads {α : Type} (t : Bytes) (m : JsonReader α) (Q : α → Prop) : Prop :=
  Completes (Access.Exact t.length) .exhausted m Q

/-- Where a part of the text that began at `p` may end. -/
def Within (t : Bytes) (p q : Nat) : Prop := p ≤ q ∧ q ≤ t.length

/-- Where a part that is not empty may end. -/
def Past (t : Bytes) (p q : Nat) : Prop := p < q ∧ q ≤ t.length

theorem Past.of_within {t : Bytes} {p q r : Nat} (hqr : Past t q r) (hpq : Within t p q) :
    Past t p r :=
  ⟨Nat.lt_of_le_of_lt hpq.1 hqr.1, hqr.2⟩

theorem Past.trans {t : Bytes} {p q r : Nat} (hpq : Past t p q) (hqr : Past t q r) :
    Past t p r :=
  ⟨hpq.1.trans hqr.1, hqr.2⟩

theorem Past.trans_within {t : Bytes} {p q r : Nat} (hpq : Past t p q) (hqr : Within t q r) :
    Past t p r :=
  ⟨Nat.lt_of_lt_of_le hpq.1 hqr.1, hqr.2⟩

section Scanners
variable {t : Bytes} {p : Nat}

theorem reads_failed {α : Type} (message : Bytes) (Q : α → Prop) :
    Reads t (failed message) Q := by
  refine completes_fail ?_ Q
  nofun

theorem reads_byteAt (h : p < t.length) : Reads t (byteAt t p) fun _ => True :=
  completes_bind (completes_report (Q := fun _ => True) h trivial) fun _ _ => completes_pure trivial

theorem reads_skipWs (h : p ≤ t.length) : Reads t (skipWs t p) (Within t p) := by
  fun_induction skipWs t p with
  | case1 p hp ih =>
      refine completes_bind (reads_byteAt hp) ?_
      intro c _
      split
      · exact (ih hp).imp fun q hq => ⟨Nat.le_of_succ_le hq.1, hq.2⟩
      · exact completes_pure ⟨Nat.le_refl p, h⟩
  | case2 p _ => exact completes_pure ⟨Nat.le_refl p, h⟩

theorem reads_nextIs (c : UInt8) :
    Reads t (nextIs t p c) fun found => found = true → p < t.length := by
  rw [nextIs]
  split
  · rename_i hp
    exact completes_bind (reads_byteAt hp) fun _ _ => completes_pure fun _ => hp
  · exact completes_pure nofun

theorem reads_expect (c : UInt8) : Reads t (expect t p c) (Past t p) := by
  rw [expect]
  refine completes_bind (reads_nextIs c) ?_
  intro found hfound
  split
  · rename_i h
    exact completes_pure ⟨Nat.lt_succ_self p, hfound h⟩
  · exact reads_failed _ _

theorem reads_readString (out : Bytes) (h : p ≤ t.length) :
    Reads t (readString t out p) fun r => Within t p r.2 := by
  fun_induction readString t out p with
  | case1 out p hp ihEscape ihRaw =>
      refine completes_bind (reads_byteAt hp) ?_
      intro c _
      split
      · exact completes_pure ⟨Nat.le_refl p, h⟩
      refine completes_bind (reads_byteAt hp) ?_
      intro c _
      split
      · split
        · rename_i hescape
          refine completes_bind (reads_byteAt hescape) ?_
          intro e _
          split
          · rename_i value _
            exact (ihEscape hescape value hescape).imp fun r hr => ⟨by have := hr.1; omega, hr.2⟩
          · exact reads_failed _ _
        · exact reads_failed _ _
      · refine completes_bind (reads_byteAt hp) ?_
        intro c _
        exact (ihRaw c hp).imp fun r hr => ⟨Nat.le_of_succ_le hr.1, hr.2⟩
  | case2 out p _ => exact completes_pure ⟨Nat.le_refl p, h⟩

theorem reads_literal (h : p ≤ t.length) {word : Bytes} (hword : 0 < word.length) (value : Json) :
    Reads t (literal t p word value) fun r => Past t p r.2 := by
  refine completes_bind (completes_report (Q := fun _ => True) ?_ trivial) ?_
  · rw [Access.Exact]
    omega
  intro _ _
  split
  · rename_i hslice
    refine completes_pure ⟨by omega, ?_⟩
    have hlength := congrArg List.length hslice
    rw [slice, List.length_take, List.length_drop] at hlength
    omega
  · exact reads_failed _ _

/-- After an opening bracket: the closing one, or the loop over what it holds. -/
theorem reads_opened (h : p < t.length) (close : UInt8) (empty : Json)
    {loop : Nat → JsonReader (Json × Nat)}
    (hloop : ∀ q, Within t (p + 1) q → Reads t (loop q) fun r => Past t q r.2) :
    Reads t (skipWs t (p + 1) >>= fun q => nextIs t q close >>= fun found =>
      if found then pure (empty, q + 1) else loop q) fun r => Past t p r.2 := by
  refine completes_bind (reads_skipWs h) ?_
  intro q hq
  refine completes_bind (reads_nextIs close) ?_
  intro found hfound
  split
  · rename_i hclose
    exact completes_pure ⟨Nat.lt_succ_of_lt hq.1, hfound hclose⟩
  · exact (hloop q hq).imp fun r hr => ⟨Nat.lt_trans hq.1 hr.1, hr.2⟩

end Scanners

/-! The three functions that call each other, by induction on the fuel. -/

structure Bounded (t : Bytes) (fuel : Nat) : Prop where
  value : ∀ p, p ≤ t.length → 2 * (t.length - p) + 1 ≤ fuel →
    Reads t (parseValue t fuel p) fun r => Past t p r.2
  members : ∀ members p, p ≤ t.length → 2 * (t.length - p) + 2 ≤ fuel →
    Reads t (parseMembers t fuel members p) fun r => Past t p r.2
  items : ∀ items p, p ≤ t.length → 2 * (t.length - p) + 2 ≤ fuel →
    Reads t (parseItems t fuel items p) fun r => Past t p r.2

section Step
variable {t : Bytes} {fuel : Nat}

theorem Bounded.value_succ (h : Bounded t fuel) (p : Nat) (hp : p ≤ t.length)
    (hfuel : 2 * (t.length - p) + 1 ≤ fuel + 1) :
    Reads t (parseValue t (fuel + 1) p) fun r => Past t p r.2 := by
  rw [parseValue]
  refine completes_bind (reads_skipWs hp) ?_
  intro q hq
  have hpq := hq.1
  split
  case isFalse => exact reads_failed _ _
  rename_i hlt
  -- After a bracket the text that is left is shorter by one, the fuel by one.
  have henough : ∀ r, Within t (q + 1) r → 2 * (t.length - r) + 2 ≤ fuel := by
    intro r hr
    have hqr := hr.1
    omega
  refine completes_bind (reads_byteAt hlt) ?_
  intro c _
  split
  · refine (reads_opened hlt closeBrace _ fun r hr => ?_).imp fun r hr => hr.of_within hq
    exact h.members [] r hr.2 (henough r hr)
  split
  · refine (reads_opened hlt closeBracket _ fun r hr => ?_).imp fun r hr => hr.of_within hq
    exact h.items [] r hr.2 (henough r hr)
  split
  · refine completes_bind (reads_readString [] hlt) ?_
    intro r hr
    refine completes_bind (reads_expect doubleQuote) ?_
    intro last hlast
    have hpast : Past t q last := ⟨Nat.lt_trans hr.1 hlast.1, hlast.2⟩
    exact completes_pure (hpast.of_within hq)
  split
  · exact (reads_literal hq.2 (by decide) _).imp fun r hr => hr.of_within hq
  split
  · exact (reads_literal hq.2 (by decide) _).imp fun r hr => hr.of_within hq
  split
  · exact (reads_literal hq.2 (by decide) _).imp fun r hr => hr.of_within hq
  · exact reads_failed _ _

theorem Bounded.items_succ (h : Bounded t fuel) (items : List Json) (p : Nat) (hp : p ≤ t.length)
    (hfuel : 2 * (t.length - p) + 2 ≤ fuel + 1) :
    Reads t (parseItems t (fuel + 1) items p) fun r => Past t p r.2 := by
  rw [parseItems]
  refine completes_bind (h.value p hp (Nat.le_of_succ_le_succ hfuel)) ?_
  rintro ⟨item, q⟩ hq
  refine completes_bind (reads_skipWs hq.2) ?_
  intro q' hq'
  have hpast := hq.trans_within hq'
  refine completes_bind (reads_nextIs comma) ?_
  intro found hfound
  split
  · rename_i hcomma
    have hlt := hfound hcomma
    have hpq := hpast.1
    exact (h.items _ (q' + 1) hlt (by omega)).imp fun r hr => ⟨by have := hr.1; omega, hr.2⟩
  · refine completes_bind (reads_expect closeBracket) ?_
    intro last hlast
    exact completes_pure (hpast.trans hlast)

theorem Bounded.members_succ (h : Bounded t fuel) (members : List (Bytes × Json)) (p : Nat)
    (hp : p ≤ t.length) (hfuel : 2 * (t.length - p) + 2 ≤ fuel + 1) :
    Reads t (parseMembers t (fuel + 1) members p) fun r => Past t p r.2 := by
  rw [parseMembers]
  refine completes_bind (reads_skipWs hp) ?_
  intro p' hp'
  have hpp := hp'.1
  refine completes_bind (h.value p' hp'.2 (by omega)) ?_
  rintro ⟨key, q⟩ hq
  refine completes_bind (reads_skipWs hq.2) ?_
  intro q' hq'
  refine completes_bind (reads_expect colon) ?_
  intro r hr
  have hpast : Past t p r := ((hq.trans_within hq').of_within hp').trans hr
  have hpr := hpast.1
  refine completes_bind (h.value r hr.2 (by omega)) ?_
  rintro ⟨value, s⟩ hs
  refine completes_bind (reads_skipWs hs.2) ?_
  intro s' hs'
  have hpast' : Past t p s' := hpast.trans (hs.trans_within hs')
  refine completes_bind (reads_nextIs comma) ?_
  intro found hfound
  split
  · rename_i hcomma
    have hlt := hfound hcomma
    have hps := hpast'.1
    exact (h.members _ (s' + 1) hlt (by omega)).imp fun r hr => ⟨by have := hr.1; omega, hr.2⟩
  · refine completes_bind (reads_expect closeBrace) ?_
    intro last hlast
    exact completes_pure (hpast'.trans hlast)

end Step

theorem bounded (t : Bytes) (fuel : Nat) : Bounded t fuel := by
  induction fuel with
  | zero => exact ⟨nofun, nofun, nofun⟩
  | succ fuel ih => exact ⟨ih.value_succ, ih.members_succ, ih.items_succ⟩

theorem reads_parse {fuel : Nat} {text : Bytes} (hfuel : 2 * text.length + 1 ≤ fuel) :
    Reads text (parse fuel text) fun _ => True := by
  refine completes_bind ((bounded text fuel).value 0 (Nat.zero_le _) hfuel) ?_
  rintro ⟨out, pos⟩ hpos
  refine completes_bind (reads_skipWs hpos.2) ?_
  intro pos' _
  split
  · exact reads_failed _ _
  · exact completes_pure trivial


/-! More fuel than enough. -/

structure Stable (t : Bytes) (fuel : Nat) : Prop where
  value : ∀ p, Extends .exhausted (parseValue t fuel p) (parseValue t (fuel + 1) p)
  members : ∀ members p,
    Extends .exhausted (parseMembers t fuel members p) (parseMembers t (fuel + 1) members p)
  items : ∀ items p,
    Extends .exhausted (parseItems t fuel items p) (parseItems t (fuel + 1) items p)

section Step
variable {t : Bytes} {fuel : Nat}

theorem Stable.value_succ (h : Stable t fuel) (p : Nat) :
    Extends .exhausted (parseValue t (fuel + 1) p) (parseValue t (fuel + 1 + 1) p) := by
  rw [parseValue, parseValue]
  refine extends_bind (extends_refl _) fun q => extends_ite ?_ (extends_refl _)
  refine extends_bind (extends_refl _) fun c => extends_ite ?_ (extends_ite ?_ (extends_refl _))
  · refine extends_bind (extends_refl _) fun q' => extends_bind (extends_refl _) fun found => ?_
    exact extends_ite (extends_refl _) (h.members [] q')
  · refine extends_bind (extends_refl _) fun q' => extends_bind (extends_refl _) fun found => ?_
    exact extends_ite (extends_refl _) (h.items [] q')

theorem Stable.items_succ (h : Stable t fuel) (items : List Json) (p : Nat) :
    Extends .exhausted (parseItems t (fuel + 1) items p) (parseItems t (fuel + 1 + 1) items p) := by
  rw [parseItems, parseItems]
  refine extends_bind (h.value p) fun r => extends_bind (extends_refl _) fun q => ?_
  refine extends_bind (extends_refl _) fun found => extends_ite ?_ (extends_refl _)
  exact h.items _ (q + 1)

theorem Stable.members_succ (h : Stable t fuel) (members : List (Bytes × Json)) (p : Nat) :
    Extends .exhausted (parseMembers t (fuel + 1) members p)
      (parseMembers t (fuel + 1 + 1) members p) := by
  rw [parseMembers, parseMembers]
  refine extends_bind (extends_refl _) fun p' => extends_bind (h.value p') fun r => ?_
  refine extends_bind (extends_refl _) fun q => extends_bind (extends_refl _) fun q' => ?_
  refine extends_bind (h.value q') fun s => extends_bind (extends_refl _) fun s' => ?_
  refine extends_bind (extends_refl _) fun found => extends_ite ?_ (extends_refl _)
  exact h.members _ (s' + 1)

end Step

theorem stable (t : Bytes) (fuel : Nat) : Stable t fuel := by
  induction fuel with
  | zero =>
      exact ⟨fun p => extends_fail _, fun members p => extends_fail _,
        fun items p => extends_fail _⟩
  | succ fuel ih => exact ⟨ih.value_succ, ih.members_succ, ih.items_succ⟩

theorem parse_eq_of_le {fuel more : Nat} {text : Bytes} (hle : fuel ≤ more)
    (hfuel : (parse fuel text).result ≠ .error .exhausted) : parse more text = parse fuel text := by
  have hstep (fuel : Nat) : Extends .exhausted (parse fuel text) (parse (fuel + 1) text) :=
    extends_bind ((stable text fuel).value 0) fun r => extends_refl _
  exact Extends.of_le hstep hle hfuel

end CppRag.Json
