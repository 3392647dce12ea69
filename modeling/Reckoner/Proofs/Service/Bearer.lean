/-
Reckoner.Proofs.Service.Bearer — a request that carries a signed token names its user.

A signed token is made of visible characters without blanks, so it comes out of the
field for authorization as it was put there (`bearerToken_sign`).
-/
import Reckoner.Proofs.Text.Blank
import Reckoner.Proofs.Token
import Reckoner.Service.Basic

namespace Reckoner

namespace Service

theorem Fields.first?_cons_self (name value : String) (rest : Fields) :
    Fields.first? ((name, value) :: rest) name = some value := by
  simp only [Fields.first?, List.find?, beq_self_eq_true, Option.map_some]

variable {req : Request} {secret : String} {c : Token.Claims}

theorem isPlainText_bearer (secret : String) (c : Token.Claims) :
    isPlainText ("Bearer " ++ Token.sign secret c) = true := by
  rw [isPlainText, String.toList_append, List.all_append, Bool.and_eq_true]
  refine ⟨by decide +kernel, List.all_eq_true.2 fun x hx => ?_⟩
  have hbounds := Token.toNat_bounds_of_mem_sign hx
  rw [Bool.or_eq_true, Bool.and_eq_true, decide_eq_true_eq, decide_eq_true_eq]
  exact .inl ⟨by omega, by omega⟩

theorem isBlank_of_mem_sign {x : Char} (h : x ∈ (Token.sign secret c).toList) :
    Text.isBlank x = false := by
  have hall : ∀ n ≤ 122, 45 ≤ n → Text.isBlank (Char.ofNat n) = false := by decide
  obtain ⟨hlow, hhigh⟩ := Token.toNat_bounds_of_mem_sign h
  rw [← Char.ofNat_toNat x]
  exact hall _ hhigh hlow

theorem bearerToken_sign
    (h : req.fields.first? "authorization" = some ("Bearer " ++ Token.sign secret c)) :
    bearerToken req = .ok (Token.sign secret c) := by
  have hplain : req.fields.plain? "authorization" = some ("Bearer " ++ Token.sign secret c) := by
    rw [Fields.plain?, h, Option.filter_some, if_pos (isPlainText_bearer secret c)]
  have hrest : "Bearer ".toList.isPrefixOf? ("Bearer " ++ Token.sign secret c).toList =
      some (Token.sign secret c).toList := by
    rw [String.toList_append]
    rfl
  have htrim : Text.trimChars (Token.sign secret c).toList = (Token.sign secret c).toList :=
    Text.trimChars_eq_self fun x hx => isBlank_of_mem_sign hx
  have hnonempty : (Token.sign secret c).toList.isEmpty = false := by
    rw [Token.toList_sign, List.isEmpty_eq_false_iff]
    exact List.append_ne_nil_of_right_ne_nil _ (List.cons_ne_nil _ _)
  rw [bearerToken, hplain]
  simp only [hrest, htrim, hnonempty, String.ofList_toList]
  rfl

/-- Whom a request with a signed token comes from. -/
theorem caller_sign {s : Service} {m : Moment} {user : Int}
    (hfield : req.fields.first? "authorization" = some ("Bearer " ++ Token.sign secret c))
    (hverify : Token.verify s.tokens.secret m.now (Token.sign secret c) = .ok user) :
    s.caller m req = .ok user := by
  rw [caller, bearerToken_sign hfield]
  exact congrArg (Except.mapError _) hverify

end Service

end Reckoner
