import Criterion.Proofs.Parse.Equations

namespace Criterion.Parse

variable {s t : Stream} {room floor : Nat}

def Shallow (complaints : List Complaint) : Prop :=
  ∀ c ∈ complaints, c.problem ≠ .nestedTooDeeply

theorem shallow_nil : Shallow [] := fun _ h => nomatch h

theorem shallow_append {cs ds : List Complaint} : Shallow (cs ++ ds) ↔ Shallow cs ∧ Shallow ds := by
  simp only [Shallow, List.mem_append, or_imp, forall_and]

theorem shallow_singleton {c : Complaint} : Shallow [c] ↔ c.problem ≠ .nestedTooDeeply := by
  simp [Shallow]

theorem shallow_map {position : Nat} {problems : List Problem} :
    Shallow (problems.map (⟨position, ·⟩)) ↔ .nestedTooDeeply ∉ problems := by
  simp only [Shallow, List.mem_map, forall_exists_index, and_imp, forall_apply_eq_imp_iff₂]
  exact ⟨fun h hm => h _ hm rfl, fun h p hp he => h (he ▸ hp)⟩

theorem noOperand_ne (t : Token) : noOperand t ≠ .nestedTooDeeply := by
  rw [noOperand]
  split <;> exact nofun

theorem shallow_expect (kind : TokenKind) (s : Stream) : Shallow (expect kind s).complaints := by
  rw [expect]
  split
  · exact shallow_nil
  · apply shallow_singleton.2
    intro h
    cases h

theorem shallow_integer (s : Stream) : Shallow (integer s).complaints := by
  rw [integer]
  split
  · exact shallow_nil
  · exact shallow_singleton.2 nofun

theorem shallow_elements (s : Stream) : Shallow (elements s).complaints := by
  induction s using elements.induct with
  | case1 s hk t hc _ ih =>
    rw [elements, dif_pos hk, if_pos hc]
    exact ih
  | case2 s hk t hc hb =>
    rw [elements, dif_pos hk, if_neg hc, if_pos hb]
    exact shallow_nil
  | case3 s hk t hc hb =>
    rw [elements, dif_pos hk, if_neg hc, if_neg hb]
    exact shallow_singleton.2 nofun
  | case4 s hk =>
    rw [elements, dif_neg hk]
    exact shallow_singleton.2 nofun

theorem nestedTooDeeply_notMem_of_arrayOf {ts : List Token} {problems : List Problem}
    (h : arrayOf ts = .error problems) : .nestedTooDeeply ∉ problems := by
  rw [arrayOf] at h
  split at h
  · exact nomatch h
  · split at h
    · split at h
      · exact nomatch h
      · cases h
        simp
    · cases h
      simp

theorem shallow_array (s : Stream) : Shallow (array s).complaints := by
  rw [array]
  split
  · exact shallow_singleton.2 nofun
  · dsimp only
    split
    · exact shallow_elements s
    · split
      · exact shallow_elements s
      · next ha =>
        exact shallow_append.2
          ⟨shallow_elements s, shallow_map.2 (nestedTooDeeply_notMem_of_arrayOf ha)⟩

/-- Where fewer tokens are left than levels of nesting, no reader runs out of levels. -/
theorem readers_shallow :
    (∀ room floor s, s.left < room → Shallow (expression room floor s).complaints) ∧
    (∀ room floor left s, s.left ≤ room → Shallow (operators room floor left s).complaints) ∧
    (∀ room s, s.left < room → Shallow (arguments room s).complaints) ∧
    (∀ room s, s.left ≤ room → Shallow (moreArguments room s).complaints) ∧
    ∀ room s, s.left ≤ room → Shallow (operand room s).complaints := by
  apply expression.mutual_induct
    (fun room floor s => s.left < room → Shallow (expression room floor s).complaints)
    (fun room floor left s => s.left ≤ room →
      Shallow (operators room floor left s).complaints)
    (fun room s => s.left < room → Shallow (arguments room s).complaints)
    (fun room s => s.left ≤ room → Shallow (moreArguments room s).complaints)
    (fun room s => s.left ≤ room → Shallow (operand room s).complaints)
  case case1 => -- no room
    intro floor s h
    exact absurd h (Nat.not_lt_zero _)
  case case2 => -- an operand, then operators
    intro floor s room start o ho hs h
    have hl : s.left ≤ room := Nat.le_of_lt_succ h
    rw [expression_of_start start]
    exact shallow_append.2 ⟨ho hl, hs (Nat.le_trans o.left_le hl)⟩
  case case3 => -- no operand
    intro floor s room start _
    rw [expression_of_no_start start]
    exact shallow_singleton.2 (noOperand_ne _)
  case case4 => -- an operator without a left operand
    intro room floor s more o ho hs h
    have shorter := Nat.lt_of_lt_of_le (Stream.left_next_lt more.1) h
    rw [operators_missing more]
    exact shallow_append.2 ⟨ho shorter, hs (Nat.le_trans o.left_le (Nat.le_of_lt shorter))⟩
  case case5 => -- an operator
    intro room floor s more l op hop o ho hs h
    have shorter := Nat.lt_of_lt_of_le (Stream.left_next_lt more.1) h
    rw [operators_binary more hop]
    exact shallow_append.2 ⟨ho shorter, hs (Nat.le_trans o.left_le (Nat.le_of_lt shorter))⟩
  case case6 => -- a call
    intro room floor s more l hop o ho hs h
    have shorter := Nat.lt_of_lt_of_le (Stream.left_next_lt more.1) h
    rw [operators_call more hop]
    exact shallow_append.2 ⟨ho shorter, hs (Nat.le_trans o.left_le (Nat.le_of_lt shorter))⟩
  case case7 => -- no further operator
    intro room floor left s stop _
    rw [operators_stop stop]
    exact shallow_nil
  case case8 => -- no arguments
    intro room s hk _
    rw [arguments_of_end hk]
    exact shallow_nil
  case case9 => -- a first argument
    intro room s hk o ho _ hm h
    rw [arguments_of_more hk]
    exact shallow_append.2 ⟨ho h, hm (Nat.le_trans o.left_le (Nat.le_of_lt h))⟩
  case case10 => -- a further argument
    intro room s hk o ho _ hm h
    have shorter := Nat.lt_of_lt_of_le (s.left_next_lt (by simp [hk])) h
    rw [moreArguments_of_comma hk]
    exact shallow_append.2 ⟨ho shorter, hm (Nat.le_trans o.left_le (Nat.le_of_lt shorter))⟩
  case case11 => -- no further argument
    intro room s hk _
    rw [moreArguments_of_end hk]
    exact shallow_expect _ _
  case case12 => -- a name
    intro room s hk _
    rw [operand_identifier hk]
    exact shallow_nil
  case case13 => -- a numeral
    intro room s hk _
    rw [operand_integer hk]
    exact shallow_integer s
  case case14 => -- a quotation
    intro room s hk _
    rw [operand_string hk]
    exact shallow_nil
  case case15 => -- true
    intro room s hk _
    rw [operand_trueWord hk]
    exact shallow_nil
  case case16 => -- false
    intro room s hk _
    rw [operand_falseWord hk]
    exact shallow_nil
  case case17 => -- an array
    intro room s hk _
    rw [operand_leftBracket hk]
    exact shallow_array s.next
  case case18 => -- a negation
    intro room s hk ho h
    rw [operand_bang hk]
    exact ho (Nat.lt_of_lt_of_le (s.left_next_lt (by simp [hk])) h)
  case case19 => -- a group
    intro room s hk ho h
    rw [operand_leftParen hk]
    exact shallow_append.2
      ⟨ho (Nat.lt_of_lt_of_le (s.left_next_lt (by simp [hk])) h), shallow_expect _ _⟩
  case case20 => -- nothing that an operand starts with
    intro room s h₁ h₂ h₃ h₄ h₅ h₆ h₇ h₈ _
    rw [operand]
    split <;> first | contradiction | exact shallow_singleton.2 (noOperand_ne _)

theorem shallow_of_expression [Nesting] {tokens : List Token}
    (hs : Shallow (expression Nesting.limit Precedence.lowest (.start tokens)).complaints) :
    Shallow (program tokens).2 := by
  rw [program]
  split
  · exact shallow_singleton.2 nofun
  · dsimp only
    split
    · next hn => exact absurd hs (by simpa [Shallow] using hn)
    · split
      · exact hs
      · exact shallow_append.2 ⟨hs, shallow_singleton.2 nofun⟩

theorem program_shallow [Nesting] {tokens : List Token} (h : tokens.length < Nesting.limit) :
    Shallow (program tokens).2 :=
  shallow_of_expression (readers_shallow.1 Nesting.limit Precedence.lowest (.start tokens) h)

end Criterion.Parse
