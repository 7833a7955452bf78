import KWayMerge.Key.Float
import KWayMerge.Key.Integer
import KWayMerge.Key.Placed
import KWayMerge.Proofs.Order.StableSort

/-!
# The orders of the key types

Integers are compared as the integers that their bits stand for, floating-point keys by their
places in the total order, and placed values by the values. Each of these orders is read off the
keys by a function into a total preorder and so is a total preorder itself, and it stays one when
it is seen from the other end.

**Results.** `transCmp_comparator`: the comparator of a direction is a total preorder for keys of
every type.
-/

namespace KWayMerge

/-- The key types: integers of any width, binary floating point of any format, placed keys. -/
inductive KeyType where
  | integer (sign : Signedness) (width : Nat)
  | float (fmt : FloatFormat)
  | placed (key : KeyType)
deriving DecidableEq

/-- The keys of a type. -/
def KeyType.Carrier : KeyType → Type
  | .integer sign width => FixedInt sign width
  | .float fmt => FloatBits fmt
  | .placed key => Placed key.Carrier

instance KeyType.mergeKey : (key : KeyType) → MergeKey key.Carrier
  | .integer sign width => inferInstanceAs (MergeKey (FixedInt sign width))
  | .float fmt => inferInstanceAs (MergeKey (FloatBits fmt))
  | .placed key =>
      have := KeyType.mergeKey key
      inferInstanceAs (MergeKey (Placed key.Carrier))

instance KeyType.decidableEq : (key : KeyType) → DecidableEq key.Carrier
  | .integer sign width => inferInstanceAs (DecidableEq (FixedInt sign width))
  | .float fmt => inferInstanceAs (DecidableEq (FloatBits fmt))
  | .placed key =>
      have := KeyType.decidableEq key
      inferInstanceAs (DecidableEq (Placed key.Carrier))

section Orders

variable {α : Type}

/-- A comparator is a total preorder if it compares what a function reads off the elements. -/
theorem transCmp_of_eq_compare {cmp : Comparator α} {f : α → Int}
    (h : ∀ a b, cmp a b = compare (f a) (f b)) : Std.TransCmp cmp := by
  have hcmp : cmp = fun a b => compare (f a) (f b) := by
    funext a b
    exact h a b
  rw [hcmp]
  exact Comparator.transCmp_comap f

instance transCmp_fixedInt {sign : Signedness} {width : Nat} :
    Std.TransCmp (MergeKey.order (α := FixedInt sign width)) :=
  transCmp_of_eq_compare fun _ _ => rfl

instance transCmp_floatBits {fmt : FloatFormat} :
    Std.TransCmp (MergeKey.order (α := FloatBits fmt)) :=
  transCmp_of_eq_compare FloatBits.totalCompare_eq

/-- The order of the values is a total preorder of patterns. -/
instance transCmp_valueCompare {fmt : FloatFormat} :
    Std.TransCmp (@FloatBits.valueCompare fmt) :=
  transCmp_of_eq_compare FloatBits.valueCompare_eq

instance transCmp_placed [MergeKey α] [Std.TransCmp (MergeKey.order (α := α))] :
    Std.TransCmp (MergeKey.order (α := Placed α)) := by
  have hcomap : Std.TransCmp fun a b : Placed α => MergeKey.order a.value b.value :=
    Comparator.transCmp_comap Placed.value
  exact hcomap

/-- **The order of every key type is a total preorder.** -/
instance transCmp_order (key : KeyType) : Std.TransCmp (MergeKey.order (α := key.Carrier)) := by
  induction key with
  | integer sign width => exact transCmp_fixedInt
  | float fmt => exact transCmp_floatBits
  | placed key ih => exact transCmp_placed

/-- **Either direction of a total preorder is a total preorder.** -/
instance transCmp_comparator [MergeKey α] [Std.TransCmp (MergeKey.order (α := α))]
    (d : Direction) : Std.TransCmp (d.comparator (α := α)) := by
  cases d with
  | ascending =>
      have hsame : Std.TransCmp fun a b : α => MergeKey.order a b := inferInstance
      exact hsame
  | descending =>
      have hopposite : Std.TransCmp fun a b : α => MergeKey.order b a := Std.TransCmp.opposite
      exact hopposite

/-- Placed values compare as their values do, in either direction. -/
theorem comparator_placed [MergeKey α] (d : Direction) :
    d.comparator (α := Placed α) = fun a b => d.comparator a.value b.value := by
  cases d with
  | ascending => rfl
  | descending => rfl

end Orders
end KWayMerge
