import Fusillade.Lib.JsonText

/-! JSON values as a script holds them, `JSON.stringify` without indentation, and what its
output says about the value: all of it, up to the order of properties. -/
namespace JsValue

/-- A surrogate stands alone where it belongs to no pair. -/
inductive CodePoint where
  | char (c : Char)
  | surrogate (n : Fin 2048)
  deriving DecidableEq

abbrev Text := List CodePoint

/-- The members of an object are in the order in which their keys were inserted. -/
inductive Value (N : Type) where
  | null
  | bool (value : Bool)
  | number (value : N)
  | string (text : Text)
  | array (elements : List (Value N))
  | object (members : List (Text × Value N))

/-- An array index: a decimal as it is printed, below `2^32 - 1`. -/
def index? (key : Text) : Option Nat :=
  let n := key.foldl (fun value c => match c with
    | .char c => value * 10 + (c.toNat - 48)
    | .surrogate _ => value) 0
  if key = (Decimal.nat n).map .char ∧ n < 2^32 - 1 then some n else none

def byIndex {α : Type} (m m' : Text × α) : Bool := (index? m.1).getD 0 ≤ (index? m'.1).getD 0

/-- Properties are listed by index first, and then in the order of insertion. -/
def propertyOrder {α : Type} (members : List (Text × α)) : List (Text × α) :=
  (members.filter fun member => (index? member.1).isSome).mergeSort byIndex ++
    members.filter fun member => (index? member.1).isNone

def escapePoint : CodePoint → List Char
  | .char c => Json.escapeChar c
  | .surrogate n => ['\\','u','d',Json.hexChar (8 + n.val / 256),Json.hexChar (n.val / 16 % 16),
      Json.hexChar (n.val % 16)]

def quote (text : Text) : List Char := '"' :: (text.flatMap escapePoint ++ ['"'])

/-- Texts between commas, up to the closing bracket. -/
def separated (close : Char) : List (List Char) → List Char
  | [] => [close]
  | [text] => text ++ [close]
  | text :: next :: rest => text ++ ',' :: separated close (next :: rest)

def memberText (member : Text × List Char) : List Char := quote member.1 ++ ':' :: member.2

section

variable {N : Type} (decimal : N → List Char)

mutual

def stringify : Value N → List Char
  | .null => "null".toList
  | .bool value => if value then "true".toList else "false".toList
  | .number value => decimal value
  | .string text => quote text
  | .array elements => '[' :: separated ']' (stringifyElements elements)
  | .object members =>
    '\x7b' :: separated '\x7d' ((propertyOrder (stringifyMembers members)).map memberText)

def stringifyElements : List (Value N) → List (List Char)
  | [] => []
  | value :: rest => stringify value :: stringifyElements rest

def stringifyMembers : List (Text × Value N) → List (Text × List Char)
  | [] => []
  | (key,value) :: rest => (key,stringify value) :: stringifyMembers rest

end

end

mutual

/-- The value with all properties in the order in which they are listed. -/
def ordered {N : Type} : Value N → Value N
  | .array elements => .array (orderedElements elements)
  | .object members => .object (propertyOrder (orderedMembers members))
  | value => value

def orderedElements {N : Type} : List (Value N) → List (Value N)
  | [] => []
  | value :: rest => ordered value :: orderedElements rest

def orderedMembers {N : Type} : List (Text × Value N) → List (Text × Value N)
  | [] => []
  | (key,value) :: rest => (key,ordered value) :: orderedMembers rest

end

/-- The code point at the front of an escaped text. -/
def readPoint : List Char → Option (CodePoint × List Char)
  | '\\' :: 'u' :: rest =>
    match (rest.take 4).mapM JavaScript.hexDigit with
    | some digits =>
      let unit := digits.foldl (fun value d => value * 16 + d) 0
      some (if unit < 0xD800 then .char (.ofNat unit) else .surrogate (Fin.ofNat 2048 unit),rest.drop 4)
    | none => none
  | '\\' :: c :: rest =>
    let c := match c with
      | 'b' => '\x08'
      | 'f' => '\x0c'
      | 'n' => '\n'
      | 'r' => '\r'
      | 't' => '\t'
      | c => c
    some (.char c,rest)
  | c :: rest => some (.char c,rest)
  | [] => none

theorem readPoint_hex {a b c d : Nat} (ha : a < 16) (hb : b < 16) (hc : c < 16) (hd : d < 16)
    (rest : List Char) :
    readPoint ('\\' :: 'u' :: Json.hexChar a :: Json.hexChar b :: Json.hexChar c :: Json.hexChar d :: rest) =
      let unit := ((a * 16 + b) * 16 + c) * 16 + d
      some (if unit < 0xD800 then .char (.ofNat unit) else .surrogate (Fin.ofNat 2048 unit),rest) := by
  simp [readPoint,Json.hexDigit_hexChar ha,Json.hexDigit_hexChar hb,Json.hexDigit_hexChar hc,
    Json.hexDigit_hexChar hd]

theorem readPoint_escapeChar (c : Char) (rest : List Char) :
    readPoint (Json.escapeChar c ++ rest) = some (.char c,rest) := by
  unfold Json.escapeChar
  split_ifs with special back feed line carriage tab control
  · rcases special with rfl | rfl <;> rfl
  · rw [back]; rfl
  · rw [feed]; rfl
  · rw [line]; rfl
  · rw [carriage]; rfl
  · rw [tab]; rfl
  · have zero : '0' = Json.hexChar 0 := rfl
    have read := readPoint_hex (a := 0) (b := 0) (by decide) (by decide)
      (show c.toNat / 16 < 16 by omega) (show c.toNat % 16 < 16 by omega) rest
    have unit : ((0 * 16 + 0) * 16 + c.toNat / 16) * 16 + c.toNat % 16 = c.toNat := by omega
    rw [unit] at read
    simp only [List.cons_append,List.nil_append,zero,read]
    rw [if_pos (by omega),Char.ofNat_toNat]
  · have plain : c ≠ '\\' := fun same => special (.inr same)
    rw [List.singleton_append,readPoint]
    all_goals
      intros
      simp_all

theorem readPoint_escapePoint (c : CodePoint) (rest : List Char) :
    readPoint (escapePoint c ++ rest) = some (c,rest) := by
  cases c with
  | char c => exact readPoint_escapeChar c rest
  | surrogate n =>
    have bound := n.isLt
    have leading : 'd' = Json.hexChar 13 := rfl
    have read := readPoint_hex (a := 13) (by decide) (show 8 + n.val / 256 < 16 by omega)
      (show n.val / 16 % 16 < 16 by omega) (show n.val % 16 < 16 by omega) rest
    have unit : ((13 * 16 + (8 + n.val / 256)) * 16 + n.val / 16 % 16) * 16 + n.val % 16 = 0xD800 + n.val := by
      omega
    rw [unit] at read
    simp only [escapePoint,List.cons_append,List.nil_append,leading,read]
    rw [if_neg (by omega)]
    have same : Fin.ofNat 2048 (0xD800 + n.val) = n := Fin.ext (by simp [Fin.ofNat]; omega)
    rw [same]

/-- No escaped code point is the beginning of another one. -/
theorem escapePoint_inj {c d : CodePoint} {x y : List Char} (same : escapePoint c ++ x = escapePoint d ++ y) :
    c = d ∧ x = y := by
  have read := readPoint_escapePoint c x
  rw [same,readPoint_escapePoint] at read
  obtain ⟨rfl,rfl⟩ := Prod.mk.inj (Option.some.inj read)
  exact ⟨rfl,rfl⟩

theorem escapePoint_head (c : CodePoint) (rest : List Char) : (escapePoint c ++ rest).head? ≠ some '"' := by
  cases c with
  | surrogate n => simp [escapePoint]
  | char c =>
    show (Json.escapeChar c ++ rest).head? ≠ some '"'
    unfold Json.escapeChar
    split_ifs with special
    all_goals simp
    exact fun same => special (.inl same)

/-- A string in quotes ends where it says. -/
theorem quote_inj {s t : Text} {x y : List Char} (same : quote s ++ x = quote t ++ y) : s = t ∧ x = y := by
  simp only [quote,List.cons_append,List.append_assoc,List.nil_append,List.cons.injEq,true_and] at same
  induction s generalizing t with
  | nil =>
    cases t with
    | nil => simpa using same
    | cons d t =>
      have head := escapePoint_head d (t.flatMap escapePoint ++ '"' :: y)
      simp only [List.flatMap_nil,List.flatMap_cons,List.append_assoc,List.nil_append] at same
      simp [← same] at head
  | cons c s ih =>
    cases t with
    | nil =>
      have head := escapePoint_head c (s.flatMap escapePoint ++ '"' :: x)
      simp only [List.flatMap_nil,List.flatMap_cons,List.append_assoc,List.nil_append] at same
      simp [same] at head
    | cons d t =>
      simp only [List.flatMap_cons,List.append_assoc] at same
      obtain ⟨rfl,rest⟩ := escapePoint_inj same
      obtain ⟨rfl,rfl⟩ := ih rest
      exact ⟨rfl,rfl⟩

/-- What may follow a value. -/
def Ends (rest : List Char) : Prop := ∀ c ∈ rest.head?, c = ',' ∨ c = ']' ∨ c = '\x7d'

/-- A character of the text of a number. -/
def Numeric (c : Char) : Prop := c.isDigit = true ∨ c ∈ ['-','+','.','e']

instance (c : Char) : Decidable (Numeric c) := inferInstanceAs (Decidable (_ ∨ _))

/-- Numbers with different texts, as ECMAScript prints them. -/
structure Prints {N : Type} (decimal : N → List Char) : Prop where
  injective : Function.Injective decimal
  nonempty : ∀ n, decimal n ≠ []
  numeric : ∀ n, ∀ c ∈ decimal n, Numeric c

section Separated

variable {α β : Type} {f : α → List Char} {g : α → β} {close : Char}

/-- A text that can be split off the front of what follows it. -/
def Splits (f : α → List Char) (g : α → β) (a : α) : Prop :=
  ∀ b x y, Ends x → Ends y → f a ++ x = f b ++ y → g a = g b ∧ x = y

/-- Texts between commas can be split off one after the other. -/
theorem separated_inj {as bs : List α} {x y : List Char} (closing : close = ']' ∨ close = '\x7d')
    (splits : ∀ a ∈ as, Splits f g a) (opens : ∀ a, ∃ c rest, f a = c :: rest ∧ c ≠ close)
    (same : separated close (as.map f) ++ x = separated close (bs.map f) ++ y) :
    as.map g = bs.map g ∧ x = y := by
  have ends (z : List Char) : Ends (close :: z) := by
    rintro c here
    obtain rfl := Option.some.inj here
    exact .inr closing
  have comma (z : List Char) : Ends (',' :: z) := by
    rintro c here
    exact .inl (Option.some.inj here).symm
  have apart : close ≠ ',' := by rcases closing with rfl | rfl <;> decide
  induction as generalizing bs with
  | nil =>
    cases bs with
    | nil => simpa [separated] using same
    | cons b bs =>
      obtain ⟨c,rest,text,other⟩ := opens b
      cases bs <;> simp [separated,text,Ne.symm other] at same
  | cons a as ih =>
    obtain ⟨here,later⟩ := List.forall_mem_cons.mp splits
    cases bs with
    | nil =>
      obtain ⟨c,rest,text,other⟩ := opens a
      cases as <;> simp [separated,text,other] at same
    | cons b bs =>
      cases as with
      | nil =>
        cases bs with
        | nil =>
          simp only [List.map_cons,List.map_nil,separated,List.append_assoc,List.singleton_append] at same
          obtain ⟨value,rest⟩ := here b _ _ (ends x) (ends y) same
          exact ⟨by simp [value],(List.cons.inj rest).2⟩
        | cons b' bs =>
          simp only [List.map_cons,List.map_nil,separated,List.append_assoc,List.cons_append] at same
          exact absurd (List.cons.inj (here b _ _ (ends x) (comma _) same).2).1 apart
      | cons a' as =>
        cases bs with
        | nil =>
          simp only [List.map_cons,List.map_nil,separated,List.append_assoc,List.cons_append] at same
          exact absurd (List.cons.inj (here b _ _ (comma _) (ends y) same).2).1.symm apart
        | cons b' bs =>
          simp only [List.map_cons,separated,List.append_assoc,List.cons_append] at same
          obtain ⟨value,rest⟩ := here b _ _ (comma _) (comma _) same
          obtain ⟨values,tail⟩ := @ih (b' :: bs) later (List.cons.inj rest).2
          exact ⟨by rw [List.map_cons,value,values]; rfl,tail⟩

end Separated

section Values

variable {N : Type} {decimal : N → List Char}

/-- Induction over the elements and the members of a value. -/
theorem Value.structural {P : Value N → Prop} (null : P .null) (bool : ∀ value, P (.bool value))
    (number : ∀ value, P (.number value)) (string : ∀ text, P (.string text))
    (array : ∀ elements, (∀ e ∈ elements, P e) → P (.array elements))
    (object : ∀ members, (∀ m ∈ members, P m.2) → P (.object members)) : ∀ value, P value
  | .null => null
  | .bool value => bool value
  | .number value => number value
  | .string text => string text
  | .array elements => array elements fun e member =>
      have := List.sizeOf_lt_of_mem member
      Value.structural null bool number string array object e
  | .object members => object members fun m member =>
      have := List.sizeOf_lt_of_mem member
      Value.structural null bool number string array object m.2
termination_by value => sizeOf value
decreasing_by
  · simp only [Value.array.sizeOf_spec]
    omega
  · obtain ⟨key,value⟩ := m
    simp only [Value.object.sizeOf_spec,Prod.mk.sizeOf_spec] at this ⊢
    omega

@[simp] theorem stringifyElements_eq (elements : List (Value N)) :
    stringifyElements decimal elements = elements.map (stringify decimal) := by
  induction elements with
  | nil => rfl
  | cons e rest ih => rw [stringifyElements,ih,List.map_cons]

@[simp] theorem stringifyMembers_eq (members : List (Text × Value N)) :
    stringifyMembers decimal members = members.map fun m => (m.1,stringify decimal m.2) := by
  induction members with
  | nil => rfl
  | cons m rest ih => rw [stringifyMembers,ih,List.map_cons]

@[simp] theorem orderedElements_eq (elements : List (Value N)) :
    orderedElements elements = elements.map ordered := by
  induction elements with
  | nil => rfl
  | cons e rest ih => rw [orderedElements,ih,List.map_cons]

@[simp] theorem orderedMembers_eq (members : List (Text × Value N)) :
    orderedMembers members = members.map fun m => (m.1,ordered m.2) := by
  induction members with
  | nil => rfl
  | cons m rest ih => rw [orderedMembers,ih,List.map_cons]

/-- The order looks at keys alone. -/
theorem propertyOrder_map {α β : Type} (f : α → β) (members : List (Text × α)) :
    propertyOrder (members.map fun m => (m.1,f m.2)) = (propertyOrder members).map fun m => (m.1,f m.2) := by
  have sorted := List.map_mergeSort (r := byIndex) (s := byIndex) (f := fun m : Text × α => (m.1,f m.2))
    (l := members.filter fun member => (index? member.1).isSome) fun _ _ _ _ => rfl
  simp only [propertyOrder,List.map_append,List.filter_map,sorted]
  rfl

theorem propertyOrder_perm {α : Type} (members : List (Text × α)) :
    (propertyOrder members).Perm members := by
  have sorted := List.mergeSort_perm (members.filter fun member => (index? member.1).isSome) byIndex
  refine (sorted.append_right _).trans ?_
  have split := List.filter_append_perm (fun member : Text × α => (index? member.1).isSome) members
  simpa using split

/-- What a value is, as the first character of its text says. -/
inductive Kind where
  | null | yes | no | number | string | array | object
  deriving DecidableEq

def Value.kind : Value N → Kind
  | .null => .null
  | .bool value => if value then .yes else .no
  | .number _ => .number
  | .string _ => .string
  | .array _ => .array
  | .object _ => .object

def kindOf (c : Char) : Kind :=
  match c with
  | 'n' => .null
  | 't' => .yes
  | 'f' => .no
  | '"' => .string
  | '[' => .array
  | '\x7b' => .object
  | _ => .number

theorem kindOf_numeric {c : Char} (numeric : Numeric c) : kindOf c = .number := by
  unfold kindOf
  split <;> first | rfl | exact absurd numeric (by decide)

theorem stringify_head (prints : Prints decimal) (value : Value N) :
    ∃ c rest, stringify decimal value = c :: rest ∧ kindOf c = value.kind ∧ c ≠ ']' ∧ c ≠ '\x7d' := by
  cases value with
  | null => exact ⟨'n',_,rfl,rfl,by decide⟩
  | bool value =>
    cases value
    · exact ⟨'f',_,rfl,rfl,by decide⟩
    · exact ⟨'t',_,rfl,rfl,by decide⟩
  | number n =>
    obtain ⟨c,rest,text⟩ := List.exists_cons_of_ne_nil (prints.nonempty n)
    have numeric := prints.numeric n c (text ▸ List.mem_cons_self)
    refine ⟨c,rest,by rw [stringify,text],kindOf_numeric numeric,?_,?_⟩
    · rintro rfl
      exact absurd numeric (by decide)
    · rintro rfl
      exact absurd numeric (by decide)
  | string text => exact ⟨'"',_,rfl,rfl,by decide⟩
  | array elements => exact ⟨'[',_,rfl,rfl,by decide⟩
  | object members => exact ⟨'\x7b',_,rfl,rfl,by decide⟩

/-- A number ends where a character comes that is none of its own. -/
theorem decimal_inj (prints : Prints decimal) {m n : N} {x y : List Char} (endsX : Ends x) (endsY : Ends y)
    (same : decimal m ++ x = decimal n ++ y) : m = n ∧ x = y := by
  have ended {z : List Char} (ends : Ends z) : z.takeWhile (fun c => decide (Numeric c)) = [] := by
    cases z with
    | nil => rfl
    | cons c rest =>
      refine List.takeWhile_cons_of_neg ?_
      rcases ends c rfl with rfl | rfl | rfl <;> decide
  have taken (k : N) {z : List Char} (ends : Ends z) :
      (decimal k ++ z).takeWhile (fun c => decide (Numeric c)) = decimal k := by
    rw [List.takeWhile_append_of_pos fun c member => decide_eq_true (prints.numeric k c member),ended ends,
      List.append_nil]
  have texts : decimal m = decimal n := by rw [← taken m endsX,same,taken n endsY]
  rw [texts] at same
  exact ⟨prints.injective texts,List.append_cancel_left same⟩

theorem memberText_splits {member : Text × Value N} (splits : Splits (stringify decimal) ordered member.2) :
    Splits (fun m : Text × Value N => memberText (m.1,stringify decimal m.2)) (fun m => (m.1,ordered m.2)) member := by
  intro other x y endsX endsY same
  simp only [memberText,List.append_assoc,List.cons_append] at same
  obtain ⟨key,rest⟩ := quote_inj same
  obtain ⟨value,tail⟩ := splits other.2 x y endsX endsY (List.cons.inj rest).2
  exact ⟨Prod.ext key value,tail⟩

theorem object_text (members : List (Text × Value N)) : stringify decimal (.object members) =
    '\x7b' :: separated '\x7d'
      ((propertyOrder members).map fun m => memberText (m.1,stringify decimal m.2)) := by
  rw [stringify,stringifyMembers_eq,propertyOrder_map,List.map_map]
  rfl

theorem ordered_object (members : List (Text × Value N)) : ordered (.object members) =
    .object ((propertyOrder members).map fun m => (m.1,ordered m.2)) := by
  rw [ordered,orderedMembers_eq,propertyOrder_map]

/-- The text of a value can be split off, and says what the value is in property order. -/
theorem stringify_splits (prints : Prints decimal) (value : Value N) :
    Splits (stringify decimal) ordered value := by
  have kinds {a b : Value N} {x y : List Char} (same : stringify decimal a ++ x = stringify decimal b ++ y) :
      a.kind = b.kind := by
    obtain ⟨c,rest,text,kind,-⟩ := stringify_head prints a
    obtain ⟨d,rest',text',kind',-⟩ := stringify_head prints b
    rw [text,text',List.cons_append,List.cons_append] at same
    rw [← kind,← kind',(List.cons.inj same).1]
  induction value using Value.structural with
  | null =>
    intro b x y _ _ same
    have kind := kinds same
    cases b with
    | null => exact ⟨rfl,List.append_cancel_left same⟩
    | bool value => cases value <;> cases kind
    | _ => cases kind
  | bool value =>
    intro b x y _ _ same
    have kind := kinds same
    cases b with
    | bool other =>
      cases value <;> cases other
      · exact ⟨rfl,List.append_cancel_left same⟩
      · cases kind
      · cases kind
      · exact ⟨rfl,List.append_cancel_left same⟩
    | _ => cases value <;> cases kind
  | number value =>
    intro b x y endsX endsY same
    have kind := kinds same
    cases b with
    | number other =>
      obtain ⟨rfl,tail⟩ := decimal_inj prints endsX endsY same
      exact ⟨rfl,tail⟩
    | bool value => cases value <;> cases kind
    | _ => cases kind
  | string text =>
    intro b x y _ _ same
    have kind := kinds same
    cases b with
    | string other =>
      obtain ⟨rfl,tail⟩ := quote_inj same
      exact ⟨rfl,tail⟩
    | bool value => cases value <;> cases kind
    | _ => cases kind
  | array elements each =>
    intro b x y _ _ same
    have kind := kinds same
    cases b with
    | array others =>
      simp only [stringify,stringifyElements_eq,List.cons_append] at same
      have opens (value : Value N) : ∃ c rest, stringify decimal value = c :: rest ∧ c ≠ ']' := by
        obtain ⟨c,rest,text,-,apart,-⟩ := stringify_head prints value
        exact ⟨c,rest,text,apart⟩
      obtain ⟨values,tail⟩ := separated_inj (.inl rfl) each opens (List.cons.inj same).2
      exact ⟨by simp only [ordered,orderedElements_eq,values],tail⟩
    | bool value => cases value <;> cases kind
    | _ => cases kind
  | object members each =>
    intro b x y _ _ same
    have kind := kinds same
    cases b with
    | object others =>
      rw [object_text,object_text,List.cons_append,List.cons_append] at same
      have splits : ∀ m ∈ propertyOrder members,
          Splits (fun m : Text × Value N => memberText (m.1,stringify decimal m.2)) (fun m => (m.1,ordered m.2)) m :=
        fun m member => memberText_splits (each m ((propertyOrder_perm members).mem_iff.mp member))
      have opens (m : Text × Value N) :
          ∃ c rest, memberText (m.1,stringify decimal m.2) = c :: rest ∧ c ≠ '\x7d' :=
        ⟨'"',_,rfl,by decide⟩
      obtain ⟨values,tail⟩ := separated_inj (.inr rfl) splits opens (List.cons.inj same).2
      exact ⟨by rw [ordered_object,ordered_object,values],tail⟩
    | bool value => cases value <;> cases kind
    | _ => cases kind

theorem map_congr_of {α β γ : Type} {f : α → β} {g : α → γ} {as bs : List α}
    (determines : ∀ a ∈ as, ∀ b, f a = f b → g a = g b) (same : as.map f = bs.map f) : as.map g = bs.map g := by
  induction as generalizing bs with
  | nil =>
    obtain rfl := List.map_eq_nil_iff.mp same.symm
    rfl
  | cons a as ih =>
    cases bs with
    | nil => simp at same
    | cons b bs =>
      obtain ⟨first,rest⟩ := List.cons.inj same
      obtain ⟨here,later⟩ := List.forall_mem_cons.mp determines
      rw [List.map_cons,List.map_cons,here b first,ih later rest]

theorem stringify_of_ordered (value : Value N) :
    ∀ b, ordered value = ordered b → stringify decimal value = stringify decimal b := by
  induction value using Value.structural with
  | array elements each =>
    intro b same
    cases b with
    | array others =>
      simp only [ordered,orderedElements_eq,Value.array.injEq] at same
      rw [stringify,stringify,stringifyElements_eq,stringifyElements_eq,map_congr_of each same]
    | _ => simp [ordered] at same
  | object members each =>
    intro b same
    cases b with
    | object others =>
      rw [ordered_object,ordered_object,Value.object.injEq] at same
      rw [object_text,object_text]
      refine congrArg (fun texts => '\x7b' :: separated '\x7d' texts) (map_congr_of ?_ same)
      intro m member other pair
      obtain ⟨key,value⟩ := Prod.mk.inj pair
      rw [key,each m ((propertyOrder_perm members).mem_iff.mp member) other.2 value]
    | _ => simp [ordered] at same
  | _ =>
    intro b same
    cases b <;> simp_all [ordered]

/-- The text says everything about a value but the order in which its keys were inserted. -/
theorem stringify_eq_iff (prints : Prints decimal) (a b : Value N) :
    stringify decimal a = stringify decimal b ↔ ordered a = ordered b := by
  refine ⟨fun same => ?_,stringify_of_ordered a b⟩
  have nothing : Ends [] := nofun
  exact (stringify_splits prints a b [] [] nothing nothing (by rw [same])).1

end Values

section Equality

variable {N : Type}

/-- Structural equality: objects are maps from keys to values. -/
inductive Same : Value N → Value N → Prop
  | null : Same .null .null
  | bool (value : Bool) : Same (.bool value) (.bool value)
  | number (value : N) : Same (.number value) (.number value)
  | string (text : Text) : Same (.string text) (.string text)
  | array {xs ys : List (Value N)} (length : xs.length = ys.length)
      (each : ∀ (i : Nat) x y, xs[i]? = some x → ys[i]? = some y → Same x y) : Same (.array xs) (.array ys)
  | object {ms ns : List (Text × Value N)}
      (keys : ∀ key, key ∈ ms.map Prod.fst ↔ key ∈ ns.map Prod.fst)
      (each : ∀ key x y, (key,x) ∈ ms → (key,y) ∈ ns → Same x y) : Same (.object ms) (.object ns)

/-- The keys that are no indices, as they were inserted. -/
def names {α : Type} (members : List (Text × α)) : List Text :=
  (members.map Prod.fst).filter fun key => (index? key).isNone

/-- Wherever two objects stand in the same place, their names were inserted in the same order. -/
inductive SameOrder : Value N → Value N → Prop
  | scalar {a b : Value N} (array : a.kind ≠ .array) (object : a.kind ≠ .object) : SameOrder a b
  | array {xs ys : List (Value N)} (each : ∀ (i : Nat) x y, xs[i]? = some x → ys[i]? = some y → SameOrder x y) :
      SameOrder (.array xs) (.array ys)
  | object {ms ns : List (Text × Value N)} (order : names ms = names ns)
      (each : ∀ key x y, (key,x) ∈ ms → (key,y) ∈ ns → SameOrder x y) : SameOrder (.object ms) (.object ns)

/-- No object has a key twice. -/
inductive Distinct : Value N → Prop
  | scalar {a : Value N} (array : a.kind ≠ .array) (object : a.kind ≠ .object) : Distinct a
  | array {xs : List (Value N)} (each : ∀ x ∈ xs, Distinct x) : Distinct (.array xs)
  | object {ms : List (Text × Value N)} (keys : (ms.map Prod.fst).Nodup) (each : ∀ m ∈ ms, Distinct m.2) :
      Distinct (.object ms)

theorem index?_inj {k l : Text} {n : Nat} (here : index? k = some n) (there : index? l = some n) : k = l := by
  have printed {key : Text} (index : index? key = some n) : key = (Decimal.nat n).map .char := by
    unfold index? at index
    dsimp only at index
    split at index
    next canonical =>
      obtain rfl := Option.some.inj index
      exact canonical.1
    next => contradiction
  rw [printed here,printed there]

def keyByIndex (k l : Text) : Bool := (index? k).getD 0 ≤ (index? l).getD 0

/-- The same indices are listed in the same order. -/
theorem sort_indices_congr {ks ls : List Text} (distinct : ks.Nodup) (distinct' : ls.Nodup)
    (keys : ∀ key, key ∈ ks ↔ key ∈ ls) :
    (ks.filter fun key => (index? key).isSome).mergeSort keyByIndex =
      (ls.filter fun key => (index? key).isSome).mergeSort keyByIndex := by
  have transitive (a b c : Text) (first : keyByIndex a b = true) (second : keyByIndex b c = true) :
      keyByIndex a c = true :=
    decide_eq_true ((of_decide_eq_true first).trans (of_decide_eq_true second))
  have total (a b : Text) : (keyByIndex a b || keyByIndex b a) = true := by
    simpa [keyByIndex] using Nat.le_total _ _
  have indexed (qs : List Text) (key : Text)
      (member : key ∈ (qs.filter fun key => (index? key).isSome).mergeSort keyByIndex) :
      ∃ n, index? key = some n := by
    have inside := List.mem_mergeSort.mp member
    exact Option.isSome_iff_exists.mp (List.mem_filter.mp inside).2
  have permuted := (List.perm_ext_iff_of_nodup distinct distinct').mpr keys
  refine @List.Perm.eq_of_pairwise _ (fun k l => keyByIndex k l = true) _ _ ?_
    (List.pairwise_mergeSort transitive total _) (List.pairwise_mergeSort transitive total _) ?_
  · intro k l here there below above
    obtain ⟨m,first⟩ := indexed ks k here
    obtain ⟨n,second⟩ := indexed ls l there
    have order := Nat.le_antisymm (of_decide_eq_true below) (of_decide_eq_true above)
    rw [first,second,Option.getD_some,Option.getD_some] at order
    exact index?_inj first (order ▸ second)
  · refine (List.mergeSort_perm _ _).trans (.trans ?_ (List.mergeSort_perm _ _).symm)
    exact permuted.filter _

/-- Objects with the same keys list them in the same order when their names come in one order. -/
theorem propertyOrder_keys_iff {α β : Type} {ms : List (Text × α)} {ns : List (Text × β)}
    (distinct : (ms.map Prod.fst).Nodup) (distinct' : (ns.map Prod.fst).Nodup)
    (keys : ∀ key, key ∈ ms.map Prod.fst ↔ key ∈ ns.map Prod.fst) :
    (propertyOrder ms).map Prod.fst = (propertyOrder ns).map Prod.fst ↔ names ms = names ns := by
  have listed {γ : Type} (qs : List (Text × γ)) : (propertyOrder qs).map Prod.fst =
      ((qs.map Prod.fst).filter fun key => (index? key).isSome).mergeSort keyByIndex ++ names qs := by
    have sorted := List.map_mergeSort (r := byIndex) (s := keyByIndex) (f := @Prod.fst Text γ)
      (l := qs.filter fun member => (index? member.1).isSome) fun _ _ _ _ => rfl
    simp only [propertyOrder,names,List.map_append,List.filter_map,sorted]
    rfl
  rw [listed,listed]
  constructor
  · intro same
    have named {γ : Type} (qs : List (Text × γ)) :
        (((qs.map Prod.fst).filter fun key => (index? key).isSome).mergeSort keyByIndex ++ names qs).filter
          (fun key => (index? key).isNone) = names qs := by
      have all : (names qs).filter (fun key => (index? key).isNone) = names qs :=
        List.filter_eq_self.mpr fun key member => (List.mem_filter.mp member).2
      rw [List.filter_append,all,List.filter_eq_nil_iff.mpr,List.nil_append]
      intro key member
      have index := (List.mem_filter.mp (List.mem_mergeSort.mp member)).2
      rw [Option.isNone_eq_false_iff.mpr index]
      exact Bool.false_ne_true
    rw [← named ms,same,named]
  · intro same
    rw [same,sort_indices_congr distinct distinct' keys]

theorem map_eq_of_keys {β : Type} {g : Value N → β} {ps qs : List (Text × Value N)}
    (keys : ps.map Prod.fst = qs.map Prod.fst) (each : ∀ k x y, (k,x) ∈ ps → (k,y) ∈ qs → g x = g y) :
    (ps.map fun m => (m.1,g m.2)) = qs.map fun m => (m.1,g m.2) := by
  induction ps generalizing qs with
  | nil =>
    obtain rfl := List.map_eq_nil_iff.mp keys.symm
    rfl
  | cons p ps ih =>
    cases qs with
    | nil => simp at keys
    | cons q qs =>
      obtain ⟨first,rest⟩ := List.cons.inj keys
      have values : g p.2 = g q.2 := each p.1 p.2 q.2 List.mem_cons_self (by simp [first])
      rw [List.map_cons,List.map_cons,first,values]
      rw [ih rest fun k x y here there => each k x y (List.mem_cons_of_mem _ here) (List.mem_cons_of_mem _ there)]

theorem ordered_array_iff {xs ys : List (Value N)}
    (each : ∀ x ∈ xs, ∀ y ∈ ys, (ordered x = ordered y ↔ Same x y ∧ SameOrder x y)) :
    xs.map ordered = ys.map ordered ↔ Same (.array xs) (.array ys) ∧ SameOrder (.array xs) (.array ys) := by
  have related {i : Nat} {x y : Value N} (here : xs[i]? = some x) (there : ys[i]? = some y) :=
    each x (List.mem_of_getElem? here) y (List.mem_of_getElem? there)
  constructor
  · intro same
    have length : xs.length = ys.length := by simpa using congrArg List.length same
    have values {i : Nat} {x y : Value N} (here : xs[i]? = some x) (there : ys[i]? = some y) :
        ordered x = ordered y := by
      have entry := congrArg (fun l : List (Value N) => l[i]?) same
      simpa [here,there] using entry
    exact ⟨.array length fun i x y here there => ((related here there).mp (values here there)).1,
      .array fun i x y here there => ((related here there).mp (values here there)).2⟩
  · rintro ⟨same,order⟩
    cases same with
    | array length equal =>
      cases order with
      | scalar array => exact absurd rfl array
      | array aligned =>
        refine List.ext_getElem? fun i => ?_
        rw [List.getElem?_map,List.getElem?_map]
        by_cases inside : i < xs.length
        · have here := List.getElem?_eq_getElem inside
          have there := List.getElem?_eq_getElem (length ▸ inside)
          rw [here,there,Option.map_some,Option.map_some,
            (related here there).mpr ⟨equal i _ _ here there,aligned i _ _ here there⟩]
        · rw [List.getElem?_eq_none (Nat.not_lt.mp inside),List.getElem?_eq_none (length ▸ Nat.not_lt.mp inside)]

theorem ordered_object_iff {ms ns : List (Text × Value N)} (distinct : (ms.map Prod.fst).Nodup)
    (distinct' : (ns.map Prod.fst).Nodup)
    (each : ∀ m ∈ ms, ∀ n ∈ ns, (ordered m.2 = ordered n.2 ↔ Same m.2 n.2 ∧ SameOrder m.2 n.2)) :
    ((propertyOrder ms).map fun m => (m.1,ordered m.2)) = ((propertyOrder ns).map fun m => (m.1,ordered m.2)) ↔
      Same (.object ms) (.object ns) ∧ SameOrder (.object ms) (.object ns) := by
  constructor
  · intro same
    have first : (Prod.fst ∘ fun m : Text × Value N => (m.1,ordered m.2)) = Prod.fst := rfl
    have listed : (propertyOrder ms).map Prod.fst = (propertyOrder ns).map Prod.fst := by
      simpa only [List.map_map,first] using congrArg (List.map Prod.fst) same
    have keys : ∀ key, key ∈ ms.map Prod.fst ↔ key ∈ ns.map Prod.fst := by
      intro key
      rw [← ((propertyOrder_perm ms).map Prod.fst).mem_iff,listed,((propertyOrder_perm ns).map Prod.fst).mem_iff]
    have values {key : Text} {x y : Value N} (here : (key,x) ∈ ms) (there : (key,y) ∈ ns) :
        ordered x = ordered y := by
      have entry : (key,ordered x) ∈ (propertyOrder ms).map fun m => (m.1,ordered m.2) :=
        List.mem_map.mpr ⟨(key,x),(propertyOrder_perm ms).mem_iff.mpr here,rfl⟩
      rw [same] at entry
      obtain ⟨⟨key',z⟩,member,pair⟩ := List.mem_map.mp entry
      obtain ⟨rfl,value⟩ := Prod.mk.inj pair
      have one := List.inj_on_of_nodup_map distinct' ((propertyOrder_perm ns).mem_iff.mp member) there rfl
      rw [← value,(Prod.mk.inj one).2]
    exact ⟨.object keys fun key x y here there => ((each _ here _ there).mp (values here there)).1,
      .object ((propertyOrder_keys_iff distinct distinct' keys).mp listed)
        fun key x y here there => ((each _ here _ there).mp (values here there)).2⟩
  · rintro ⟨same,order⟩
    cases same with
    | object keys equal =>
      cases order with
      | scalar array object => exact absurd rfl object
      | object order aligned =>
        refine map_eq_of_keys ((propertyOrder_keys_iff distinct distinct' keys).mpr order) ?_
        intro key x y here there
        have here := (propertyOrder_perm ms).mem_iff.mp here
        have there := (propertyOrder_perm ns).mem_iff.mp there
        exact (each _ here _ there).mpr ⟨equal key x y here there,aligned key x y here there⟩

theorem ordered_scalar_iff {a b : Value N} (array : a.kind ≠ .array) (object : a.kind ≠ .object) :
    ordered a = ordered b ↔ Same a b ∧ SameOrder a b := by
  rw [and_iff_left (.scalar array object)]
  constructor
  · intro same
    cases a with
    | array | object => contradiction
    | _ =>
      cases b <;> simp only [ordered,reduceCtorEq] at same
      cases same
      constructor
  · intro same
    cases same with
    | array | object => contradiction
    | _ => rfl

/-- Two values are alike in property order when they are equal and their names come in one order. -/
theorem ordered_eq_iff {a b : Value N} (distinct : Distinct a) (distinct' : Distinct b) :
    ordered a = ordered b ↔ Same a b ∧ SameOrder a b := by
  induction a using Value.structural generalizing b with
  | array xs ih =>
    cases distinct with
    | scalar array => exact absurd rfl array
    | array each =>
      cases b with
      | array ys =>
        cases distinct' with
        | scalar array => exact absurd rfl array
        | array each' =>
          simp only [ordered,orderedElements_eq,Value.array.injEq]
          exact ordered_array_iff fun x here y there => ih x here (each x here) (each' y there)
      | _ => exact ⟨fun same => by simp [ordered] at same,fun both => nomatch both.1⟩
  | object ms ih =>
    cases distinct with
    | scalar array object => exact absurd rfl object
    | object keys each =>
      cases b with
      | object ns =>
        cases distinct' with
        | scalar array object => exact absurd rfl object
        | object keys' each' =>
          rw [ordered_object,ordered_object,Value.object.injEq]
          exact ordered_object_iff keys keys' fun m here n there => ih m here (each m here) (each' n there)
      | _ => exact ⟨fun same => by simp [ordered] at same,fun both => nomatch both.1⟩
  | bool value => cases value <;> exact ordered_scalar_iff (by simp [Value.kind]) (by simp [Value.kind])
  | _ => exact ordered_scalar_iff (by simp [Value.kind]) (by simp [Value.kind])

end Equality

end JsValue
