import Fusillade.Lib.Entities

/-! Texts in the HTML report: endpoints, errors and metric names come from the scripts. -/
namespace Fusillade.Stats.Html

open Entities

/-- `str::replace` of a character. -/
def replace (c : Char) (value s : String) : String :=
  String.ofList (Replacement.replace [c] value.toList s.toList)

def escapeHtml (s : String) : String :=
  s |> replace '&' "&amp;" |> replace '<' "&lt;" |> replace '>' "&gt;" |> replace '"' "&quot;" |> replace '\'' "&#39;"

/-- The entities of the other special characters. -/
def special : List (Char × List Char) :=
  [('<',"&lt;".toList),('>',"&gt;".toList),('"',"&quot;".toList),('\'',"&#39;".toList)]

theorem special_starts : ∀ e ∈ ('&',"&amp;".toList) :: special, ∃ tail, e.2 = '&' :: tail ∧ '&' ∉ tail := by
  simp [special]

theorem special_clean : ∀ e ∈ special, ∀ f ∈ ('&',"&amp;".toList) :: special, e.1 ∉ f.2 := by decide

theorem special_unambiguous : ∀ e ∈ ('&',"&amp;".toList) :: special, ∀ f ∈ ('&',"&amp;".toList) :: special,
    e.2 <+: f.2 → e = f := by decide

def table : Table Char := ⟨'&',"&amp;".toList,special,special_starts,special_clean,special_unambiguous⟩

/-- The five entities of `escape_html`, and no others, taken for their characters. -/
def decodeHtml (s : String) : String := String.ofList (decode table.entries s.toList)

theorem escapeHtml_eq (s : String) : (escapeHtml s).toList = s.toList.flatMap (write table.entries) := by
  rw [← table.substitute_entries]
  simp [escapeHtml,replace,substitute,Table.entries,table,special]

/-- Nothing of an escaped text can end the text around it, and a reader sees the text itself. -/
theorem escapeHtml_safe (s : String) :
    (∀ c ∈ ['<','>','"','\''], c ∉ (escapeHtml s).toList) ∧
      (∀ before after, (escapeHtml s).toList = before ++ '&' :: after → ∃ e ∈ table.entries, e.2 <+: '&' :: after) ∧
      decodeHtml (escapeHtml s) = s := by
  rw [decodeHtml,escapeHtml_eq]
  refine ⟨fun c among => ?_,fun before after split => table.entity_of_mark split,?_⟩
  · obtain ⟨e,member,rfl⟩ : ∃ e ∈ special, e.1 = c := List.mem_map.mp among
    exact table.not_mem_written member s.toList
  · rw [table.decode_written,String.ofList_toList]

example : escapeHtml "' &lt; <b>" = "&#39; &amp;lt; &lt;b&gt;" := by decide

end Fusillade.Stats.Html
