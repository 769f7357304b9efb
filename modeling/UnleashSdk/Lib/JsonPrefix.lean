/-
  A TEXT CUT SHORT.

  A parser that has read a value has seen where it ends, unless the value is a number at the very
  end of the text.  So more text changes nothing about a value that was read:

      parseValue t = some (j, rest)  →  parseValue (t ++ q) = some (j, rest ++ q)

  (`parse_append`, one induction on the fuel for values, items and members at once).  The text of
  an object is read to its end, so none of its proper prefixes is a value: such a library is
  `Strict`.
-/
import Mathlib.Data.List.TakeWhile
import UnleashSdk.Lib.JsonText

set_option linter.unusedVariables false

/-- The text of an object, cut short, is no JSON text. -/
def JsonLib.Strict (J : JsonLib) : Prop :=
  ∀ {ms : List (Bytes × Json)} {text : Bytes} {n : Nat}, (Json.obj ms).Normal →
    J.dump (.obj ms) = some text → n < text.length → J.parse (text.take n) = none

namespace JsonText

/-! ## Tokens -/

theorem skipWs_append {t u : Bytes} {c : UInt8} (h : skipWs t = c :: u) (q : Bytes) :
    skipWs (t ++ q) = c :: (u ++ q) := by
  unfold skipWs at h ⊢
  rw [List.dropWhile_append, h]
  rfl

theorem parseEscape_append {t s rest : Bytes} (h : parseEscape t = some (s, rest)) (q : Bytes) :
    parseEscape (t ++ q) = some (s, rest ++ q) := by
  cases t with
  | nil => cases h
  | cons e t =>
    rw [List.cons_append]
    unfold parseEscape at h ⊢
    simp only at h ⊢
    split at h
    · rename_i he
      rw [if_pos he]
      split at h
      · rename_i h₁ h₂ h₃ h₄ t
        simp only [List.cons_append]
        split at h
        · cases h
        · rename_i u hu
          split at h
          · rename_i hsur
            rw [if_pos hsur]
            split at h
            · rename_i x y g₁ g₂ g₃ g₄ t
              simp only [List.cons_append]
              split at h
              · cases h
              · rename_i v hv
                split at h
                · rename_i hlow
                  obtain ⟨hs, hrest⟩ := Prod.mk.inj (Option.some.inj h)
                  rw [if_pos hlow, hs, hrest]
                · cases h
            · cases h
          · rename_i hsur
            rw [if_neg hsur]
            split at h
            · cases h
            · rename_i hlow
              obtain ⟨hs, hrest⟩ := Prod.mk.inj (Option.some.inj h)
              rw [if_neg hlow, hs, hrest]
      · cases h
    · rename_i he
      rw [if_neg he]
      cases hb : unescape e with
      | none => rw [hb] at h; cases h
      | some b =>
        rw [hb] at h
        cases h
        rfl

theorem prepend_some {pre s rest : Bytes} {r : Option (Bytes × Bytes)}
    (h : prepend pre r = some (s, rest)) : ∃ s', r = some (s', rest) ∧ s = pre ++ s' := by
  cases r with
  | none => cases h
  | some p => cases h; exact ⟨p.1, rfl, rfl⟩

theorem parseString_append {f : Nat} : ∀ {f' : Nat} {t s rest : Bytes}, f ≤ f' →
    parseString f t = some (s, rest) → ∀ q, parseString f' (t ++ q) = some (s, rest ++ q) := by
  induction f with
  | zero => intro f' t s rest hf h; cases h
  | succ f ih =>
    intro f' t s rest hf h q
    obtain ⟨g, rfl⟩ : ∃ g, f' = g + 1 := ⟨f' - 1, by omega⟩
    have hg : f ≤ g := by omega
    cases t with
    | nil => cases h
    | cons c t =>
      rw [List.cons_append]
      rw [parseString] at h ⊢
      split at h
      · rename_i hc
        rw [if_pos hc]
        cases h
        rfl
      · rename_i hc
        rw [if_neg hc]
        split at h
        · rename_i hb
          rw [if_pos hb]
          cases he : parseEscape t with
          | none => rw [he] at h; cases h
          | some p =>
            rw [he] at h
            obtain ⟨s', hs', rfl⟩ := prepend_some h
            rw [parseEscape_append he q]
            simp only
            rw [ih hg hs' q]
            rfl
        · rename_i hb
          rw [if_neg hb]
          split at h
          · cases h
          · rename_i hctl
            rw [if_neg hctl]
            obtain ⟨s', hs', rfl⟩ := prepend_some h
            rw [ih hg hs' q]
            rfl

theorem parseNumber_append {t rest : Bytes} {j : Json} (h : parseNumber t = some (j, rest))
    (hrest : rest ≠ []) (q : Bytes) : parseNumber (t ++ q) = some (j, rest ++ q) := by
  unfold parseNumber at h
  cases hn : number (t.takeWhile isNumberByte) with
  | none => rw [hn] at h; cases h
  | some j' =>
    rw [hn] at h
    cases h
    have hsplit : t ++ q =
        t.takeWhile isNumberByte ++ (t.dropWhile isNumberByte ++ q) := by
      rw [← List.append_assoc, List.takeWhile_append_dropWhile]
    have hstop : ∀ b, (t.dropWhile isNumberByte ++ q).head? = some b →
        isNumberByte b = false := by
      intro b hb
      rw [List.head?_append_of_ne_nil _ hrest] at hb
      have hdrop := List.head?_dropWhile_not isNumberByte t
      rw [hb] at hdrop
      exact hdrop
    obtain ⟨htake, hdrop⟩ := takeWhile_append_stop (fun b hb => List.mem_takeWhile_imp hb) hstop
    rw [← hsplit] at htake hdrop
    rw [parseNumber, htake, hdrop, hn]
    rfl

theorem parseName_some {name t rest : Bytes} {j j' : Json}
    (h : parseName name j t = some (j', rest)) : j' = j ∧ t = name ++ rest := by
  unfold parseName at h
  split at h
  · rename_i hpre
    cases h
    obtain ⟨u, rfl⟩ := List.isPrefixOf_iff_prefix.mp hpre
    exact ⟨rfl, by rw [List.drop_left]⟩
  · cases h

theorem parseName_extend {name t rest : Bytes} {j j' : Json}
    (h : parseName name j t = some (j', rest)) (q : Bytes) :
    parseName name j (t ++ q) = some (j', rest ++ q) := by
  obtain ⟨rfl, rfl⟩ := parseName_some h
  rw [List.append_assoc]
  exact parseName_append name _ _


/-! ## Values -/

theorem parseValue_nil (f : Nat) : parseValue f [] = none := by
  cases f with
  | zero => rfl
  | succ f => rfl

theorem parseItems_nil (f : Nat) : parseItems f [] = none := by
  cases f with
  | zero => rfl
  | succ f => rw [parseItems, parseValue_nil]

theorem parseMembers_nil (f : Nat) : parseMembers f [] = none := by
  cases f with
  | zero => rfl
  | succ f => rfl

/-- A number is no object. -/
theorem number_ne_obj {lit : Bytes} {ms : List (Bytes × Json)} : number lit ≠ some (.obj ms) := by
  have hnum : ∀ {c : Prop} [Decidable c] {n : Int},
      (if c then some (Json.int n) else some (Json.float lit)) ≠ some (.obj ms) := by
    intro c _ n
    split <;> simp
  have hlit : ∀ {c : Prop} [Decidable c],
      (if c then some (Json.float lit) else none) ≠ some (.obj ms) := by
    intro c _
    split <;> simp
  unfold number
  simp only
  generalize (if (lit.head? == some 0x2D) = true then lit.tail else lit) = body
  by_cases hint : isIntPart body = true
  · rw [if_pos hint]
    exact hnum
  · rw [if_neg hint]
    exact hlit

/-- A value that was read to its end, and more text after it. -/
def ValueExtends (f : Nat) : Prop :=
  ∀ {t rest : Bytes} {j : Json}, parseValue f t = some (j, rest) →
    (rest ≠ [] ∨ ∃ ms, j = .obj ms) →
    ∀ {g : Nat}, f ≤ g → ∀ q, parseValue g (t ++ q) = some (j, rest ++ q)

def ItemsExtend (f : Nat) : Prop :=
  ∀ {t rest : Bytes} {xs : List Json}, parseItems f t = some (xs, rest) →
    ∀ {g : Nat}, f ≤ g → ∀ q, parseItems g (t ++ q) = some (xs, rest ++ q)

def MembersExtend (f : Nat) : Prop :=
  ∀ {t rest : Bytes} {ms : List (Bytes × Json)}, parseMembers f t = some (ms, rest) →
    ∀ {g : Nat}, f ≤ g → ∀ q, parseMembers g (t ++ q) = some (ms, rest ++ q)

theorem parseValue_append {f : Nat} (ihItems : ItemsExtend f) (ihMembers : MembersExtend f) :
    ValueExtends (f + 1) := by
  intro t rest j h hend g hg q
  obtain ⟨f', rfl⟩ : ∃ f', g = f' + 1 := ⟨g - 1, by omega⟩
  have hf : f ≤ f' := by omega
  cases hskip : skipWs t with
  | nil =>
    simp only [parseValue, hskip] at h
    cases h
  | cons c u =>
    simp only [parseValue, hskip] at h
    simp only [parseValue, skipWs_append hskip q]
    by_cases hquote : c = 0x22
    · rw [if_pos hquote] at h ⊢
      cases hs : parseString (u.length + 1) u with
      | none => rw [hs] at h; cases h
      | some p =>
        rw [hs] at h
        have hlen : u.length + 1 ≤ (u ++ q).length + 1 := by
          rw [List.length_append]
          omega
        rw [parseString_append hlen hs q]
        cases h
        rfl
    rw [if_neg hquote] at h ⊢
    by_cases hbracket : c = 0x5B
    · rw [if_pos hbracket] at h ⊢
      split at h
      · rename_i v hv
        simp only [skipWs_append hv q]
        cases h
        rfl
      · rename_i hno
        cases hi : parseItems f (skipWs u) with
        | none => rw [hi] at h; cases h
        | some p =>
          rw [hi] at h
          cases hv : skipWs u with
          | nil =>
            rw [hv, parseItems_nil] at hi
            cases hi
          | cons d v =>
            rw [hv] at hi
            rw [skipWs_append hv q]
            split
            · rename_i w hw
              exact absurd ((List.cons.inj hw).1 ▸ hv) (hno v)
            · rw [← List.cons_append, ihItems hi hf q]
              cases h
              rfl
    rw [if_neg hbracket] at h ⊢
    by_cases hbrace : c = 0x7B
    · rw [if_pos hbrace] at h ⊢
      split at h
      · rename_i v hv
        simp only [skipWs_append hv q]
        cases h
        rfl
      · rename_i hno
        cases hi : parseMembers f (skipWs u) with
        | none => rw [hi] at h; cases h
        | some p =>
          rw [hi] at h
          cases hv : skipWs u with
          | nil =>
            rw [hv, parseMembers_nil] at hi
            cases hi
          | cons d v =>
            rw [hv] at hi
            rw [skipWs_append hv q]
            split
            · rename_i w hw
              exact absurd ((List.cons.inj hw).1 ▸ hv) (hno v)
            · rw [← List.cons_append, ihMembers hi hf q]
              cases h
              rfl
    rw [if_neg hbrace] at h ⊢
    by_cases hn : c = 0x6E
    · rw [if_pos hn] at h ⊢
      exact parseName_extend h q
    rw [if_neg hn] at h ⊢
    by_cases ht : c = 0x74
    · rw [if_pos ht] at h ⊢
      exact parseName_extend h q
    rw [if_neg ht] at h ⊢
    by_cases hfalse : c = 0x66
    · rw [if_pos hfalse] at h ⊢
      exact parseName_extend h q
    rw [if_neg hfalse] at h ⊢
    refine parseNumber_append h ?_ q
    rcases hend with hne | ⟨ms, rfl⟩
    · exact hne
    · -- an object is no number
      obtain ⟨lit, hlit, heq⟩ := Option.map_eq_some_iff.mp h
      exact absurd ((Prod.mk.inj heq).1 ▸ hlit) number_ne_obj

theorem parseItems_append {f : Nat} (ihValue : ValueExtends f) (ihItems : ItemsExtend f) :
    ItemsExtend (f + 1) := by
  intro t rest xs h g hg q
  obtain ⟨f', rfl⟩ : ∃ f', g = f' + 1 := ⟨g - 1, by omega⟩
  have hf : f ≤ f' := by omega
  simp only [parseItems] at h ⊢
  split at h
  · cases h
  · rename_i x t' hx
    split at h
    · rename_i u hu
      cases h
      have hne : t' ≠ [] := by
        rintro rfl
        cases hu
      rw [ihValue hx (Or.inl hne) hf q]
      simp only [skipWs_append hu q]
    · rename_i u hu
      have hne : t' ≠ [] := by
        rintro rfl
        cases hu
      rw [ihValue hx (Or.inl hne) hf q]
      cases hi : parseItems f u with
      | none => rw [hi] at h; cases h
      | some p =>
        rw [hi] at h
        cases h
        simp only [skipWs_append hu q, ihItems hi hf q]
        rfl
    · cases h

theorem parseMembers_append {f : Nat} (ihValue : ValueExtends f) (ihMembers : MembersExtend f) :
    MembersExtend (f + 1) := by
  intro t rest ms h g hg q
  obtain ⟨f', rfl⟩ : ∃ f', g = f' + 1 := ⟨g - 1, by omega⟩
  have hf : f ≤ f' := by omega
  simp only [parseMembers] at h ⊢
  split at h
  · rename_i u hu
    simp only [skipWs_append hu q]
    split at h
    · cases h
    · rename_i k t₁ hk
      have hlen : u.length + 1 ≤ (u ++ q).length + 1 := by
        rw [List.length_append]
        omega
      rw [parseString_append hlen hk q]
      split at h
      · rename_i t₂ hcolon
        simp only [skipWs_append hcolon q]
        split at h
        · cases h
        · rename_i v t₃ hv
          split at h
          · rename_i t₄ hbrace
            have hne : t₃ ≠ [] := by
              rintro rfl
              cases hbrace
            rw [ihValue hv (Or.inl hne) hf q]
            simp only [skipWs_append hbrace q]
            cases h
            rfl
          · rename_i t₄ hcomma
            have hne : t₃ ≠ [] := by
              rintro rfl
              cases hcomma
            rw [ihValue hv (Or.inl hne) hf q]
            simp only [skipWs_append hcomma q]
            cases hm : parseMembers f t₄ with
            | none => rw [hm] at h; cases h
            | some p =>
              rw [hm] at h
              rw [ihMembers hm hf q]
              cases h
              rfl
          · cases h
      · cases h
  · cases h

/-- **More text leaves what was read as it is.** -/
theorem parse_append (f : Nat) : ValueExtends f ∧ ItemsExtend f ∧ MembersExtend f := by
  induction f with
  | zero =>
    refine ⟨fun h => ?_, fun h => ?_, fun h => ?_⟩
    · cases h
    · cases h
    · cases h
  | succ f ih =>
    obtain ⟨ihValue, ihItems, ihMembers⟩ := ih
    exact ⟨parseValue_append ihItems ihMembers, parseItems_append ihValue ihItems,
      parseMembers_append ihValue ihMembers⟩

/-! ## Objects -/

/-- A text that begins with a brace begins an object. -/
theorem parseValue_brace {f : Nat} {t rest : Bytes} {j : Json}
    (h : parseValue f (0x7B :: t) = some (j, rest)) : ∃ ms, j = .obj ms := by
  cases f with
  | zero => cases h
  | succ f =>
    simp only [parseValue, skipWs_cons (show isWs 0x7B = false by decide)] at h
    rw [if_neg (by decide), if_neg (by decide), if_pos trivial] at h
    split at h
    · exact ⟨[], (Prod.mk.inj (Option.some.inj h)).1.symm⟩
    · obtain ⟨p, -, heq⟩ := Option.map_eq_some_iff.mp h
      exact ⟨_, (Prod.mk.inj heq).1.symm⟩

theorem parse_cut {ms : List (Bytes × Json)} (hms : (Json.obj ms).Normal) {p q : Bytes}
    (hpq : p ++ q = print (.obj ms)) (hq : q ≠ []) : parse p = none := by
  unfold parse
  split
  · rfl
  · rename_i j rest hp
    -- the object that was read would be all there is
    cases p with
    | nil =>
      rw [parseValue_nil] at hp
      cases hp
    | cons c u =>
      have hbrace : c = 0x7B := (List.cons.inj hpq).1
      obtain ⟨ms', rfl⟩ := parseValue_brace (hbrace ▸ hp)
      have hlong := (parse_append _).1 hp (Or.inr ⟨ms', rfl⟩)
        (g := 2 * (c :: u).length + 2 + cost (.obj ms)) (by omega) q
      have hwhole := (parse_core (2 * (c :: u).length + 2 + cost (.obj ms))).1 (.obj ms)
        (by omega) hms [] nofun
      rw [hpq] at hlong
      rw [List.append_nil, hlong] at hwhole
      have hnil : rest ++ q = [] := (Prod.mk.inj (Option.some.inj hwhole)).2
      exact absurd (List.append_eq_nil_iff.mp hnil).2 hq

theorem compact_strict : compact.Strict := by
  intro ms text n hms hdump hn
  have htext : print (.obj ms) = text := by
    have hdump : dump (.obj ms) = some text := hdump
    unfold dump at hdump
    split at hdump
    · exact Option.some.inj hdump
    · cases hdump
  refine parse_cut hms (q := text.drop n) ?_ ?_
  · rw [List.take_append_drop, htext]
  · intro hnil
    have hlen := congrArg List.length hnil
    rw [List.length_drop, List.length_nil] at hlen
    omega

end JsonText
