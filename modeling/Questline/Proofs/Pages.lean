import Questline.Hunt

/-!
# Pages are told apart by their names

The name of a page is made of the number of a character and the number of the page, and both can be read off it again. So
no two pages of a quest have the same name, and choices that name pages of different characters differ.
-/

namespace Questline

/-- A name is read up to the dash, and then up to the ending. -/
theorem pageName_inj {npc npc' : NpcId} {number number' : UInt8} :
    pageName npc number = pageName npc' number' ↔ npc = npc' ∧ number = number' := by
  refine ⟨fun h => ?_, fun h => by rw [h.1, h.2]⟩
  have hdash : ∀ cs : List Char, Numeral.NoDigit ('-' :: cs) := fun cs c hc => by
    obtain rfl := Option.some.inj hc
    rfl
  have hdigits : ∀ n : Nat, ∀ c ∈ Numeral.digits n, c.isDigit = true := fun n c hc => Numeral.isDigit_of_mem_digits hc
  have hnames := String.ofList_inj.1 h
  simp only [List.append_assoc, List.cons_append] at hnames
  have hnpc := congrArg (List.takeWhile Char.isDigit) hnames
  have hrest := congrArg (List.dropWhile Char.isDigit) hnames
  rw [Numeral.takeWhile_digits (hdigits _) (hdash _), Numeral.takeWhile_digits (hdigits _) (hdash _)] at hnpc
  rw [Numeral.dropWhile_digits (hdigits _) (hdash _), Numeral.dropWhile_digits (hdigits _) (hdash _)] at hrest
  have hnumber := List.append_cancel_right (List.cons.inj hrest).2
  constructor
  · have hvalue := congrArg Numeral.value hnpc
    rw [Numeral.value_digits, Numeral.value_digits, UInt32.toNat_inj] at hvalue
    cases npc
    cases npc'
    exact congrArg Id.mk hvalue
  · have hvalue := congrArg Numeral.value hnumber
    rwa [Numeral.value_padded, Numeral.value_padded, UInt8.toNat_inj] at hvalue

theorem Dialogue.ofPage_inj {npc npc' : NpcId} {number number' : UInt8} :
    ofPage npc number = ofPage npc' number' ↔ npc = npc' ∧ number = number' := by
  rw [ofPage, ofPage, page.injEq, pageName_inj]

namespace Hunt

theorem GiverPage.number_inj {page page' : GiverPage} : page.number = page'.number ↔ page = page' := by
  cases page <;> cases page' <;> decide

theorem TurnInPage.number_inj {page page' : TurnInPage} : page.number = page'.number ↔ page = page' := by
  cases page <;> cases page' <;> decide

variable (h : Hunt)

theorem giverPage_inj {page page' : GiverPage} : h.giverPage page = h.giverPage page' ↔ page = page' := by
  rw [giverPage, giverPage, Dialogue.ofPage_inj, and_iff_right rfl, GiverPage.number_inj]

theorem turnInPage_inj {page page' : TurnInPage} : h.turnInPage page = h.turnInPage page' ↔ page = page' := by
  rw [turnInPage, turnInPage, Dialogue.ofPage_inj, and_iff_right rfl, TurnInPage.number_inj]

theorem turnInToken_eq_acceptToken_iff : h.turnInToken = h.acceptToken ↔ h.definition.turnIn = h.definition.giver := by
  rw [turnInToken, acceptToken, pageName_inj, and_iff_left]
  rfl

variable {h}

theorem choose_turnInToken (hne : h.definition.giver ≠ h.definition.turnIn) (player : PlayerId) (r : Record) (now : Instant) :
    h.choose player h.turnInToken r now = h.turnIn player h.turnInToken r now := by
  rw [choose, if_neg fun he => hne (h.turnInToken_eq_acceptToken_iff.1 he).symm, if_pos rfl]

end Hunt

end Questline
