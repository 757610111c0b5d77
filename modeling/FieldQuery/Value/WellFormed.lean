import FieldQuery.Value.Basic

/-!
# Well-formed values

Members are looked up by their names, so a map is a map only if no name
occurs twice in it. A value is well formed if this holds of every map inside
it, as it does of every document that is read from a text. It is indexable if
every list inside it is so short that the positions in it are integers of 64
bits.
-/

namespace FieldQuery
namespace Value

/-- Whether no map inside a value has two members of one name. -/
inductive WellFormed : Value → Prop where
  | null :
      WellFormed .null
  | bool
      {value : Bool} :
      WellFormed (.bool value)
  | number
      {value : Number} :
      WellFormed (.number value)
  | text
      {value : String} :
      WellFormed (.text value)
  | list
      {items : List Value}
      (hitems : ∀ item ∈ items, WellFormed item) :
      WellFormed (.list items)
  | map
      {members : List (String × Value)}
      (hnames : (Members.names members).Nodup)
      (hmembers : ∀ member ∈ members, WellFormed member.2) :
      WellFormed (.map members)

@[simp]
theorem wellFormed_list_iff
    {items : List Value} :
    (list items).WellFormed ↔ ∀ item ∈ items, item.WellFormed := by
  constructor
  · rintro ⟨⟩
    assumption
  · exact .list

@[simp]
theorem wellFormed_map_iff
    {members : List (String × Value)} :
    (map members).WellFormed ↔
      (Members.names members).Nodup ∧ ∀ member ∈ members, member.2.WellFormed := by
  constructor
  · rintro ⟨⟩
    constructor <;> assumption
  · rintro ⟨hnames, hmembers⟩
    exact .map hnames hmembers

attribute [simp] WellFormed.null WellFormed.bool WellFormed.number WellFormed.text

/-- Whether the positions in each list inside a value, and its length, are integers of 64 bits. -/
inductive Indexable : Value → Prop where
  | null :
      Indexable .null
  | bool
      {value : Bool} :
      Indexable (.bool value)
  | number
      {value : Number} :
      Indexable (.number value)
  | text
      {value : String} :
      Indexable (.text value)
  | list
      {items : List Value}
      (hlength : items.length < 9223372036854775808)
      (hitems : ∀ item ∈ items, Indexable item) :
      Indexable (.list items)
  | map
      {members : List (String × Value)}
      (hmembers : ∀ member ∈ members, Indexable member.2) :
      Indexable (.map members)

end Value
end FieldQuery
