import Fusillade.Bridge.Replay
import Fusillade.Lib.Replacement
import Fusillade.Lib.ShellQuoting

/-! A captured request as a command for a shell, and what the shell makes of it. -/
namespace Fusillade.Bridge.Curl

open Shell Replacement Replay
open Shell.Reader (join)

def headerPart (header : String × String) : Text :=
  "-H \"".toList ++ (header.1.toList ++ (": ".toList ++ (replace ['"'] ['\\','"'] header.2.toList ++ ['"'])))

def bodyPart (body : String) : Text :=
  "-d \"".toList ++ (replace ['\n'] ['\\','n'] (replace ['"'] ['\\','"'] body.toList) ++ ['"'])

/-- The body that is sent, if there is one. -/
def sentBody (r : CapturedRequest) : List String := r.body.toList.filter (· ≠ "")

/-- The headers are in the order in which the map lists them. -/
def toCurl (r : CapturedRequest) : Text :=
  List.intercalate " \\\n  ".toList (("curl -X ".toList ++ r.method.toList) ::
    (r.headers.map headerPart ++ (sentBody r).map bodyPart ++ ['\'' :: (r.url.toList ++ ['\''])]))

def headerText (header : String × String) : Text := header.1.toList ++ (": ".toList ++ header.2.toList)

/-- The words that the command is meant to have. -/
def argumentList (r : CapturedRequest) : List Text :=
  ["curl".toList,"-X".toList,r.method.toList] ++ r.headers.flatMap (fun h => ["-H".toList,headerText h]) ++
    (sentBody r).flatMap (fun body => ["-d".toList,body.toList]) ++ [r.url.toList]

def texts (r : CapturedRequest) : List String :=
  r.method :: r.url :: (r.headers.flatMap (fun h => [h.1,h.2]) ++ sentBody r)

/-- What the quotes of the command leave as it is. -/
structure Safe (r : CapturedRequest) : Prop where
  method : Bare r.method.toList
  headers : ∀ h ∈ r.headers, '"' ∉ h.1.toList ∧ DoubleQuotable (headerText h)
  body : ∀ body ∈ sentBody r, '\n' ∉ body.toList ∧ DoubleQuotable body.toList
  url : '\'' ∉ r.url.toList
  null : ∀ text ∈ texts r, '\x00' ∉ text.toList

section Items

def headerItem (c : Char) : Written := if c = '"' then .quote else .raw c

def bodyItem (c : Char) : Written := if c = '"' then .quote else if c = '\n' then .newline else .raw c

variable {text : Text}

theorem written_headerItem (text : Text) : written (text.map headerItem) = replace ['"'] ['\\','"'] text := by
  rw [replace_singleton,written,List.flatMap_map]
  refine List.flatMap_congr fun c _ => ?_
  rw [headerItem]
  split_ifs <;> rfl

theorem written_bodyItem (text : Text) :
    written (text.map bodyItem) = replace ['\n'] ['\\','n'] (replace ['"'] ['\\','"'] text) := by
  rw [replace_singleton,replace_singleton,written,List.flatMap_map,List.flatMap_assoc]
  refine List.flatMap_congr fun c _ => ?_
  rw [bodyItem]
  split_ifs with quote line
  · rfl
  · rw [line]
    rfl
  · simp [line,Written.text]

theorem meant_map {item : Char → Written} (same : ∀ c, (item c).meant = c) (text : Text) : meant (text.map item) = text := by
  rw [meant,List.map_map]
  exact List.map_id'' same text

theorem meant_headerItem (c : Char) : (headerItem c).meant = c := by
  rw [headerItem]
  split_ifs with quote
  · exact quote.symm
  · rfl

theorem meant_bodyItem (c : Char) : (bodyItem c).meant = c := by
  rw [bodyItem]
  split_ifs with quote line
  · exact quote.symm
  · exact line.symm
  · rfl

def headerItems (header : String × String) : List Written :=
  (header.1.toList ++ ": ".toList).map .raw ++ header.2.toList.map headerItem

theorem meant_headerItems (header : String × String) : meant (headerItems header) = headerText header := by
  have name := meant_map (fun c => (rfl : (Written.raw c).meant = c)) (header.1.toList ++ ": ".toList)
  have value := meant_map meant_headerItem header.2.toList
  rw [meant] at name value
  rw [meant,headerItems,List.map_append,name,value,headerText,List.append_assoc]

theorem clean_headerItems (header : String × String) :
    Clean (headerItems header) ↔ '"' ∉ header.1.toList ∧ DoubleQuotable (headerText header) := by
  have line : Written.newline ∉ headerItems header := by
    simp only [headerItems,headerItem,List.mem_append,List.mem_map,not_or,not_exists,not_and]
    refine ⟨by simp,fun c _ => ?_⟩
    split_ifs <;> simp
  have quote : .raw '"' ∉ headerItems header ↔ '"' ∉ header.1.toList := by
    have value : .raw '"' ∉ header.2.toList.map headerItem := by
      simp only [headerItem,List.mem_map,not_exists,not_and]
      intro c _
      split_ifs with same <;> simp [same]
    simp [headerItems,value]
  rw [← meant_headerItems,← quote]
  exact ⟨fun clean => ⟨clean.quote,clean.quotable⟩,fun both => ⟨both.1,line,both.2⟩⟩

theorem clean_bodyItems (body : Text) : Clean (body.map bodyItem) ↔ '\n' ∉ body ∧ DoubleQuotable body := by
  have quote : .raw '"' ∉ body.map bodyItem := by
    simp only [bodyItem,List.mem_map,not_exists,not_and]
    intro c _
    split_ifs with same <;> simp [same]
  have line : .newline ∉ body.map bodyItem ↔ '\n' ∉ body := by
    rw [not_iff_not]
    constructor
    · intro inside
      obtain ⟨c,member,same⟩ := List.mem_map.mp inside
      rw [← meant_bodyItem c,same] at member
      exact member
    · exact fun member => List.mem_map.mpr ⟨_,member,rfl⟩
  have whole := meant_map meant_bodyItem body
  rw [← line]
  constructor
  · exact fun clean => ⟨clean.newline,whole ▸ clean.quotable⟩
  · exact fun both => ⟨quote,both.1,whole.symm ▸ both.2⟩

end Items

section Command

variable (r : CapturedRequest)

def options : List (Text × List Written) :=
  r.headers.map (fun h => ("-H".toList,headerItems h)) ++ (sentBody r).map fun body => ("-d".toList,body.toList.map bodyItem)

/-- An option with its argument in double quotes. -/
def optionText (o : Text × List Written) : Text := o.1 ++ (' ' :: '"' :: (written o.2 ++ ['"']))

theorem intercalate_arguments (first last : Text) (options : List (Text × List Written)) :
    List.intercalate join (first :: (options.map optionText ++ ['\'' :: (last ++ ['\''])])) =
      first ++ (join ++ arguments options last) := by
  induction options generalizing first with
  | nil => simp [arguments,List.intercalate_cons_cons]
  | cons o options ih =>
    rw [List.map_cons,List.cons_append,List.intercalate_cons_cons,ih,arguments]
    simp [optionText]

theorem toCurl_eq : toCurl r = "curl -X ".toList ++ (r.method.toList ++ (join ++ arguments (options r) r.url.toList)) := by
  have header (h : String × String) : headerPart h = optionText ("-H".toList,headerItems h) := by
    rw [optionText,headerItems,written_append,written_raw,written_headerItem,headerPart]
    simp
  have body (text : String) : bodyPart text = optionText ("-d".toList,text.toList.map bodyItem) := by
    rw [optionText,written_bodyItem,bodyPart]
    simp
  have parts : r.headers.map headerPart ++ (sentBody r).map bodyPart = (options r).map optionText := by
    rw [options,List.map_append,List.map_map,List.map_map,List.map_congr_left fun h _ => header h,
      List.map_congr_left fun text _ => body text]
    rfl
  have line : " \\\n  ".toList = join := rfl
  rw [toCurl,parts,line,intercalate_arguments,List.append_assoc]

theorem argumentList_eq : argumentList r =
    ["curl".toList,"-X".toList] ++ (r.method.toList :: values (options r) r.url.toList) := by
  have headers : (r.headers.map fun h => ("-H".toList,headerItems h)).flatMap (fun o => [o.1,meant o.2]) =
      r.headers.flatMap fun h => ["-H".toList,headerText h] := by
    rw [List.flatMap_map]
    exact List.flatMap_congr fun h _ => by rw [meant_headerItems]
  have body : ((sentBody r).map fun body => ("-d".toList,body.toList.map bodyItem)).flatMap (fun o => [o.1,meant o.2]) =
      (sentBody r).flatMap fun body => ["-d".toList,body.toList] := by
    rw [List.flatMap_map]
    exact List.flatMap_congr fun body _ => by rw [meant_map meant_bodyItem]
  rw [values,options,List.flatMap_append,headers,body,argumentList]
  simp

theorem bare_option {letter : Char} (plain : Plain letter) : Bare ['-',letter] where
  nonempty := List.cons_ne_nil _ _
  plain := List.forall_mem_cons.mpr ⟨by decide,List.forall_mem_singleton.mpr plain⟩
  comment := by simp
  home := by simp

theorem options_bare : ∀ o ∈ options r, Bare o.1 ∧ o.1.head? = some '-' := by
  have header : Bare "-H".toList := bare_option (by decide : Plain 'H')
  have body : Bare "-d".toList := bare_option (by decide : Plain 'd')
  intro o member
  rcases List.mem_append.mp member with inside | inside
  · obtain ⟨h,-,rfl⟩ := List.mem_map.mp inside
    exact ⟨header,rfl⟩
  · obtain ⟨text,-,rfl⟩ := List.mem_map.mp inside
    exact ⟨body,rfl⟩

theorem options_clean : (∀ o ∈ options r, Clean o.2) ↔
    (∀ h ∈ r.headers, '"' ∉ h.1.toList ∧ DoubleQuotable (headerText h)) ∧
      ∀ body ∈ sentBody r, '\n' ∉ body.toList ∧ DoubleQuotable body.toList := by
  simp only [options,List.forall_mem_append,List.forall_mem_map,clean_headerItems,clean_bodyItems]

theorem exists_texts {p : Text → Prop} : (∃ text ∈ texts r, p text.toList) ↔ p r.method.toList ∨ p r.url.toList ∨
    (∃ h ∈ r.headers, p h.1.toList ∨ p h.2.toList) ∨ ∃ body ∈ sentBody r, p body.toList := by
  constructor
  · rintro ⟨text,member,holds⟩
    rcases List.mem_cons.mp member with rfl | member
    · exact .inl holds
    rcases List.mem_cons.mp member with rfl | member
    · exact .inr (.inl holds)
    rcases List.mem_append.mp member with header | body
    · obtain ⟨h,inside,either⟩ := List.mem_flatMap.mp header
      refine .inr (.inr (.inl ⟨h,inside,?_⟩))
      simp only [List.mem_cons,List.not_mem_nil,or_false] at either
      rcases either with rfl | rfl
      · exact .inl holds
      · exact .inr holds
    · exact .inr (.inr (.inr ⟨text,body,holds⟩))
  · have header {h : String × String} {text : String} (inside : h ∈ r.headers) (either : text ∈ [h.1,h.2]) :
        text ∈ texts r := by
      have member : text ∈ r.headers.flatMap fun h => [h.1,h.2] := List.mem_flatMap.mpr ⟨h,inside,either⟩
      exact List.mem_cons_of_mem _ (List.mem_cons_of_mem _ (List.mem_append_left _ member))
    rintro (method | url | ⟨h,inside,name | value⟩ | ⟨body,inside,holds⟩)
    · exact ⟨_,List.mem_cons_self,method⟩
    · exact ⟨_,List.mem_cons_of_mem _ List.mem_cons_self,url⟩
    · exact ⟨h.1,header inside List.mem_cons_self,name⟩
    · exact ⟨h.2,header inside (List.mem_cons_of_mem _ List.mem_cons_self),value⟩
    · exact ⟨body,List.mem_cons_of_mem _ (List.mem_cons_of_mem _ (List.mem_append_right _ inside)),holds⟩

theorem null_iff : '\x00' ∈ toCurl r ↔ ∃ text ∈ texts r, '\x00' ∈ text.toList := by
  have inside := mem_arguments (c := '\x00') (by decide) (options r) r.url.toList
  have option : (∃ o ∈ options r, '\x00' ∈ o.1 ∨ '\x00' ∈ meant o.2) ↔
      (∃ h ∈ r.headers, '\x00' ∈ h.1.toList ∨ '\x00' ∈ h.2.toList) ∨ ∃ body ∈ sentBody r, '\x00' ∈ body.toList := by
    simp [options,or_and_right,exists_or,meant_headerItems,meant_map meant_bodyItem,headerText]
  have start : '\x00' ∉ "curl -X ".toList := by simp
  have line : '\x00' ∉ join := by decide
  rw [toCurl_eq,exists_texts r (p := fun text => '\x00' ∈ text)]
  simp only [List.mem_append,start,line,false_or,inside,option]
  exact or_congr_right or_comm

/-- **A shell reads the command as the request's arguments exactly when the request is safe.** -/
theorem words_toCurl_iff : Shell.words (toCurl r) = some (argumentList r) ↔ Safe r := by
  have start (rest : Text) : Shell.Reader.read {} ("curl -X ".toList ++ rest) =
      Shell.Reader.read ⟨["curl".toList,"-X".toList],none,.unquoted⟩ rest := rfl
  have command := @Reader.read_command_iff ["curl".toList,"-X".toList] (options r) r.method.toList r.url.toList (options_bare r)
  by_cases null : '\x00' ∈ toCurl r
  · obtain ⟨text,member,inside⟩ := (null_iff r).mp null
    rw [words,if_pos null]
    exact ⟨fun same => absurd same (Option.some_ne_none _).symm,fun safe => absurd inside (safe.null text member)⟩
  · have clear : ∀ text ∈ texts r, '\x00' ∉ text.toList := fun text member inside => null ((null_iff r).mpr ⟨text,member,inside⟩)
    rw [words,if_neg null,argumentList_eq,toCurl_eq,start,command,options_clean]
    constructor
    · rintro ⟨method,⟨headers,body⟩,url⟩
      exact ⟨method,headers,body,url,clear⟩
    · exact fun safe => ⟨safe.method,⟨safe.headers,safe.body⟩,safe.url⟩

def post (url body : String) : CapturedRequest where
  timestamp := "2024-01-01T00:00:00Z"
  method := "POST"
  url := url
  headers := [("Accept","text/*"),("X-Note","say \"hi\"")]
  body := some body
  status := 500
  error := none
  responseBody := none

example : Shell.words (toCurl (post "https://shop.test/?a=1&b=$2" "\x7b\"q\": 1\x7d")) =
    some (argumentList (post "https://shop.test/?a=1&b=$2" "\x7b\"q\": 1\x7d")) := by decide +kernel

/-- Line breaks arrive as two letters each, commands are carried out, and a quote ends the URL. -/
theorem post_changed :
    Shell.words (toCurl (post "https://shop.test/" "a\nb")) = (some (argumentList (post "https://shop.test/" "a\\nb"))) ∧
    Shell.words (toCurl (post "https://shop.test/" "a\nb")) ≠ some (argumentList (post "https://shop.test/" "a\nb")) ∧
    Shell.words (toCurl (post "https://shop.test/" "$(id)")) = none ∧
    Shell.words (toCurl (post "https://shop.test/?q=it's" "a")) = none := by
  decide +kernel

end Command

end Fusillade.Bridge.Curl
