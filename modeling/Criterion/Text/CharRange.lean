namespace Criterion.Text

/-- A set of characters: the code points from `first` to `last`, ends included, for each pair. -/
abbrev CharRanges := List (Nat × Nat)

def CharRanges.has (ranges : CharRanges) (c : Char) : Bool :=
  ranges.any fun (first, last) => first ≤ c.toNat && c.toNat ≤ last

end Criterion.Text
