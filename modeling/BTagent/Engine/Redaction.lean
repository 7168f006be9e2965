import BTagent.Data.CharTable
import BTagent.Lib.Rewriting

namespace BTagent

-- A character table whose letters, in either case, are no white space.
structure LetterTable extends CharTable where
  letter_space : ∀ c d, d.isLower = true → sameLetter c d = true → isSpace c = false

namespace LetterTable

theorem lower_of_isLower {d : Char} (h : d.isLower = true) : 97 ≤ d.toLower.toNat := by
  have hrange := (Bool.and_eq_true _ _).mp h
  have hlow : 97 ≤ d.toNat := UInt32.le_iff_toNat_le.mp (of_decide_eq_true hrange.1)
  have hhigh : d.toNat ≤ 122 := UInt32.le_iff_toNat_le.mp (of_decide_eq_true hrange.2)
  have hall : ∀ n : Fin 26, 97 ≤ (Char.ofNat (97 + n.val)).toLower.toNat := by decide
  have hd := hall ⟨d.toNat - 97, by omega⟩
  rwa [Nat.add_sub_cancel' hlow, Char.ofNat_toNat] at hd

theorem lower_of_small {c : Char} (h : c.toNat ≤ 32) : c.toLower.toNat ≤ 32 := by
  have hall : ∀ n : Fin 33, (Char.ofNat n.val).toLower.toNat ≤ 32 := by decide
  have hc := hall ⟨c.toNat, by omega⟩
  rwa [Char.ofNat_toNat] at hc

theorem ascii_letter_space (c d : Char) (hd : d.isLower = true)
    (h : CharTable.ascii.sameLetter c d = true) : CharTable.ascii.isSpace c = false := by
  by_contra hspace
  have hsmall : c.toNat ≤ 32 := by
    have hor : (c == ' ' || (9 ≤ c.toNat && c.toNat ≤ 13) ||
        (28 ≤ c.toNat && c.toNat ≤ 31)) = true := eq_true_of_ne_false hspace
    simp only [Bool.or_eq_true, beq_iff_eq, Bool.and_eq_true, decide_eq_true_eq] at hor
    rcases hor with (rfl | hor) | hor
    · decide
    · omega
    · omega
  have heq : c.toLower = d.toLower := eq_of_beq h
  have hlow := lower_of_isLower hd
  have hhigh := lower_of_small hsmall
  rw [heq] at hhigh
  omega

def ascii : LetterTable := { CharTable.ascii with letter_space := ascii_letter_space }

end LetterTable

namespace Redaction
open Regex

variable (T : LetterTable)

-- `[REDACTED:<kind>]`
def mark (kind : String) : List Char := '[' :: ("REDACTED:".toList ++ kind.toList) ++ [']']

def isTokenChar (c : Char) : Bool := c.isAlphanum || c == '-'

-- `[A-Za-z0-9._\-]`
def isBearerChar (c : Char) : Bool := c.isAlphanum || c ∈ ['.', '_', '-']

-- `[A-Za-z0-9_\-]`
def isJwtChar (c : Char) : Bool := c.isAlphanum || c ∈ ['_', '-']

-- `[A-Za-z0-9/+]`
def isBase64Char (c : Char) : Bool := c.isAlphanum || c ∈ ['/', '+']

def BEARER_RE : Regex :=
  seq (literal "Bearer".toList) (seq (plus (set T.isSpace)) (atLeast 20 isBearerChar))

def BASIC_AUTH_HEADER_RE : Regex :=
  seq (literal "Basic".toList) (seq (plus (set T.isSpace))
    (seq (atLeast 8 isBase64Char) (upTo 2 (char '='))))

def AWS_AKID_RE : Regex :=
  seq (literal "AKIA".toList) (sets (List.replicate 16 fun c => c.isDigit || c.isUpper))

def SLACK_RE : Regex :=
  seq (literal "xox".toList) (seq (set (· ∈ ['b', 'a', 'p', 'r', 's']))
    (seq (char '-') (atLeast 10 isTokenChar)))

def GITHUB_RE : Regex :=
  seq (literal "gh".toList) (seq (set (· ∈ ['p', 'o', 'u', 's', 'r']))
    (seq (char '_') (atLeast 36 Char.isAlphanum)))

def JWT_RE : Regex :=
  seq (literal "eyJ".toList) (seq (atLeast 10 isJwtChar) (seq (char '.')
    (seq (atLeast 10 isJwtChar) (seq (char '.') (atLeast 10 isJwtChar)))))

-- `[^:/\s]` and `[^@/\s]`
def isUserChar (c : Char) : Bool := c ≠ ':' && c ≠ '/' && !T.isSpace c

def isPasswordChar (c : Char) : Bool := c ≠ '@' && c ≠ '/' && !T.isSpace c

def scheme : Regex := seq (literal "http".toList) (seq (opt (char 's')) (literal "://".toList))

def BASIC_AUTH_URL_RE : Regex :=
  seq scheme (seq (plus (set (isUserChar T))) (seq (char ':')
    (seq (plus (set (isPasswordChar T))) (char '@'))))

-- Letters of either case.
def anyCase (s : String) : Regex := sets (s.toList.map fun d c => T.sameLetter c d)

def isLetter (c : Char) : Bool := "abcdefghijklmnopqrstuvwxyz".toList.any fun d => T.sameLetter c d

-- `[A-Za-z0-9._/+=\-]`
def isValueChar (c : Char) : Bool :=
  isLetter T c || c.isDigit || c ∈ ['.', '_', '/', '+', '=', '-']

def credentialKey : Regex :=
  alt (seq (anyCase T "api") (seq (opt (set (· ∈ ['_', '-']))) (anyCase T "key")))
    (alt (anyCase T "apikey") (alt (anyCase T "secret") (alt (anyCase T "token")
      (alt (anyCase T "password") (alt (anyCase T "passwd") (anyCase T "pwd"))))))

def separator : Regex :=
  seq (star (set T.isSpace)) (seq (set (· ∈ [':', '='])) (star (set T.isSpace)))

def isQuote (c : Char) : Bool := c ∈ ['\x27', '\x22']

def value : Regex := atLeast 16 (isValueChar T)

-- The value stands between two quotes of one kind or alone.
def quotedValue : Regex :=
  alt (seq (char '\x27') (seq (value T) (char '\x27')))
    (alt (seq (char '\x22') (seq (value T) (char '\x22'))) (value T))

def GENERIC_KEY_RE : Regex := seq (credentialKey T) (seq (separator T) (quotedValue T))

def AWS_SECRET_WINDOW : ℕ := 200

-- `(?<![A-Za-z0-9/+])[A-Za-z0-9/+=]{40}(?![A-Za-z0-9/+=])` at the start of the window.
def secretAt (prev : Option Char) (window : List Char) : Bool :=
  !prev.any isBase64Char && (window.take 40).length == 40 &&
    (window.take 40).all (fun c => isBase64Char c || c == '=') &&
      !(window.drop 40).head?.any fun c => isBase64Char c || c == '='

def searchSecret : Option Char → List Char → Option ℕ
  | _, [] => none
  | prev, c :: window =>
      if secretAt prev (c :: window) then some 0
      else (searchSecret (some c) window).map (· + 1)

-- `out` and `pos` after one access key id.
def awsStep (text : List Char) (acc : List Char × ℕ) (m : ℕ × ℕ) : List Char × ℕ :=
  let out := acc.1 ++ ((text.take m.1).drop acc.2 ++ mark "aws_access_key_id")
  let pos := m.2
  match searchSecret (text.take pos).getLast? ((text.take (pos + AWS_SECRET_WINDOW)).drop pos) with
  | none => (out, pos)
  | some s => (out ++ ((text.take (pos + s)).drop pos ++ mark "aws_secret_access_key"), pos + s + 40)

def redactAwsPair (text : List Char) : List Char :=
  let acc := (spans 0 (scan T.isWord AWS_AKID_RE text)).foldl (awsStep text) ([], 0)
  acc.1 ++ text.drop acc.2

-- The scheme of a matched URL.
def schemeOf (w : List Char) : List Char :=
  if "https".toList <+: w then "https://".toList else "http://".toList

def redactBasicAuth (text : List Char) : List Char :=
  sub T.isWord (BASIC_AUTH_URL_RE T)
    (fun w => schemeOf w ++ (mark "basic_auth" ++ ['@'])) text

-- The key and the separator of a matched credential, and the quote that follows.
def credentialHead (w : List Char) : List Char × List Char :=
  let inKey := fun c => !(T.isSpace c || c == ':' || c == '=')
  let afterKey := w.dropWhile inKey
  let sepAndValue := afterKey.dropWhile T.isSpace
  let valuePart := (sepAndValue.drop 1).dropWhile T.isSpace
  (w.takeWhile inKey ++ (afterKey.takeWhile T.isSpace ++
    (sepAndValue.take 1 ++ (sepAndValue.drop 1).takeWhile T.isSpace)),
    (valuePart.take 1).filter isQuote)

def hideValue (w : List Char) : List Char :=
  let (head, quote) := credentialHead T w
  head ++ (quote ++ (mark "credential" ++ quote))

def redactGenericKey (text : List Char) : List Char :=
  sub T.isWord (GENERIC_KEY_RE T) (hideValue T) text

-- The patterns before the generic one.
def redactSpecific (text : List Char) : List Char :=
  let bearer := sub T.isWord (BEARER_RE T) (fun _ => mark "bearer_token") text
  let basic := sub T.isWord (BASIC_AUTH_HEADER_RE T)
    (fun _ => "Basic ".toList ++ mark "basic_auth") bearer
  let aws := redactAwsPair T basic
  let slack := sub T.isWord SLACK_RE (fun _ => mark "slack_token") aws
  let github := sub T.isWord GITHUB_RE (fun _ => mark "github_token") slack
  let jwt := sub T.isWord JWT_RE (fun _ => mark "jwt") github
  redactBasicAuth T jwt

def redactSecrets (text : List Char) : List Char :=
  if text = [] then text else redactGenericKey T (redactSpecific T text)

end Redaction

end BTagent
