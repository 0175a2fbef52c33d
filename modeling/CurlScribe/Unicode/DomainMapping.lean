import CurlScribe.Text.CharClass
import CurlScribe.Unicode.Composition
import CurlScribe.Unicode.Packed

/-!
# Mapping of domain names

What becomes of each character of a domain name before it is looked up: letters lose their case,
variants of a character become that character, some characters are dropped and others are refused.
-/

namespace CurlScribe
namespace Unicode

/-- What becomes of the characters of a run. -/
inductive Fate where
  | kept
  | refused
  | dropped
  /-- Each becomes this text. -/
  | replaced (text : Text)
  /-- Each becomes the character that is so far away, as `shifted` counts. -/
  | moved (distance : Nat)
  /-- Pairs: the first of each becomes the second, which is kept. -/
  | paired
deriving DecidableEq, Repr

/-- The runs and their fates that numbers describe. -/
def readFates : List Nat → List (Nat × Fate)
  | [] => []
  | [_] => []
  | 0 :: length :: rest => (length, .kept) :: readFates rest
  | 1 :: length :: rest => (length, .refused) :: readFates rest
  | 2 :: length :: rest => (length, .dropped) :: readFates rest
  | 3 :: length :: rest =>
    match rest with
    | [] => []
    | count :: rest =>
      (length, .replaced ((rest.take count).map Char.ofNat)) :: readFates (rest.drop count)
  | 4 :: length :: rest =>
    match rest with
    | [] => []
    | distance :: rest => (length, .moved distance) :: readFates rest
  | 5 :: length :: rest => (length, .paired) :: readFates rest
  | count :: code :: rest =>
    (1, .replaced (((code :: rest).take (count - 5)).map Char.ofNat))
      :: readFates ((code :: rest).drop (count - 5))
termination_by numbers => numbers.length
decreasing_by
  all_goals
    simp only [List.length_cons, List.length_drop]
    omega

/-- The fates of all characters, in runs from U+0000 on. -/
def fates : List (Nat × Fate) := readFates (unpack [
  "AiBEaiAAhFBhAGhAAHHhA4IABGjBACCBABHhA4EACECnfHhA4BG9cACHhA5HGhRGjPABIhRoiEhUIhRoiEhSIhToiEhU",
  "ABEXiAABEHiAAhBFhQHjJ4HABDCCjJjKFEABFGDCCjMlXFIH1cjOFhOGnfFGGjTABGyTFEGyUGsIABECsaGsMACGudGy",
  "ZGybGsSABGzAGzDABGzJGzIGsZADGzPGzSABGzVFGG0AGtIABG0DACGtNABG0IGtQABECtSFEG0SGtZADGtdAHDDCjEr",
  "eDDCjMjKDDCjOjKFQABFSABDDCjEjaGvVABGsVGtfFhIGseABFSAGGrjFGxcABGsaGrjGACGyCABGsAG0JG0MFKAjAGj",
  "IGzGGjKGjSGzZGzbG0BGjXGjZAfHhA4GHhA4HHhA4KHhA5IHhA4DHhA4LACGzDGjMGjTGjYG0VAibECjfABG4TH4I4BG",
  "9ZAJCBAhAFEG1ZABG7XABBCHhA9ZADGhbG-TBEHhA4BIhA4I4BG9MGlXEDiKBBG+MBBECjeABERiABBEJiAAhDG+XG9S",
  "G9YG+FG+NG+LG+GG+AABFYG9aG+BG+DABG9YG9VABG-YABG+DG-bACEDoDEQlAEhAiAAhQFhCAIFhWGhmPFOABFjABBE",
  "hGjABBAhPHhrFhsCADBCADBBAhXBBACBFAbBEAGBRAWBBAiYHhxHhzUHhyIhzUHh2HhzUHhyKhzUAjEBBAhQBCAhbBCA",
  "jFBOAhbBCAhRBCAPBBAcBCABBBALBFAhABHAiLBBAjVHioVipcHioWipcHioXipcHiocipcHipBipcHipCipcHipLipc",
  "HipPipcAhEBBAIBCACBCAWBBAHBBABBDAEBCAJBCACBCAEBIABBEHitBitcHitCitcBBHitPitcAEBCAZBCADBBAGBEA",
  "CBCAWBBAHBBABHixSixcBBABHixYixcBBACBCABBBAFBEACBCADBDABBHHiwWixcHiwXixcHiwcixcABBBHixLixcBHA",
  "RBKADBBAJBBADBBAWBBAHBBACBBAFBCAKBBADBBADBCABBPAEBCAMBHAHBBADBBAIBCACBCAWBBAHBBACBBAFBCAJBCA",
  "CBCADBHADBEHi5Bi5cHi5Ci5cBBAFBCASBKACBBAGBDADBBAEBDACBBABBBACBDACBDADBDAMBEAFBDADBBAEBCABBGA",
  "BBOAVBFANBBADBBAXBBAQBCAJBBADBBAEBHACBBADBBACBCAEBCAKBHAWBBADBBAXBBAKBBAFBCAJBBADBBAEBHACBFA",
  "DBBAEBCAKBBADBMANBBADBBAhTBBADBBAGBEAQBCAaBBADBBASBDAYBBAJBBABBCAHBDABBEAGBBABBBAIBGAKBCADBM",
  "AhSHjyNjxSAHBEAdBhFACBBABBBAFBBAYBBABBBAMHj2Nj1SAKBCAFBBABBBAHBBAKBCHj1Lj0ZHj1Lj1BACBhAAMGj4",
  "LAhWHj6Cj9XAEBBAEHj6Mj9XAEHj6Rj9XAEHj6Wj9XAEHj6bj9XAMHj6Aj9VADBEACHj7Rj7SABHj7Rj7UHj9Sj8AIj9",
  "Sj7Rj8AHj9Tj8AIj9Tj7Rj8AAHHj7Rj8AARHj8Sj9XAEBBAEHj8cj9XAEHj9Bj9XAEHj9Gj9XAEHj9Lj9XAMHj8Qj9VA",
  "DBBAPBBANBhFAlAEhGumABBGrpHBFGrpNBCAhMGkmcAjCCCAnIBBAEBCAHBBABBBAEBCAhJBBAEBCAhBBBAEBCAHBBAB",
  "BBAEBCAPBBAhZBBAEBCAiDBCAhABDAaBGAiWBCEGPBCA0ABBAcBDAiZBHAWBJAYBJAUBMANBBADBBACBMAhUCCAhIBCA",
  "KBGAKBGALCFAKBGAiZBHAhLBFAiGBKAfBBAMBEAMBEABBDAhKBCAFBLAhMBEAaBGALBDAheBCAiBBBAdBCALBGAKBGAO",
  "BCAhOBCAMBUAiNBBAlGBIAhcBDAPBDAhTGhhSGhhUGhheECskDGhiCGhiKGhjDGhpyLGnkKABBFEhLl7fBCEDl7fAIBI",
  "AhLBFAhMGjBGnGGjCABECusXGudEIusXABGjPGxDGjQGjSECusXGjXGjBECtvHGnoCGjCECuuHGyZECtufGjHABGjLGj",
  "NGqLGjPGyUECjbGjQECuuFGnodGzPGjWGnpFEDs6VECs5TGjJGjSECuudECs7HG+BECs6FANGhhdAhCGySGjDGyVGnQG",
  "ycGjGGyfGzBGzFEDtzXGnrbG0dGzNGnsFG0fGzRGzQEEtzXGzYECtzBGtLECtyZGnocECtybGjaEDtyXG9YAiAFkWAEH",
  "jB1eGnzBACGmfABFjAAIEIPAGBCEGPBCAIEIPAIEIPAGBCEGPBCAIBBGn6RBBGn6TBBGn6VBBGn6XAIEIPABG9MABG9N",
  "ABG9OABG9PABG+MABG+NABG+OBCHn4A9ZHn4B9ZHn4C9ZHn4D9ZHn4E9ZHn4F9ZHn4G9ZHn4H9ZHn4A9ZHn4B9ZHn4C9",
  "ZHn4D9ZHn4E9ZHn4F9ZHn4G9ZHn4H9ZHn5A9ZHn5B9ZHn5C9ZHn5D9ZHn5E9ZHn5F9ZHn5G9ZHn5H9ZHn5A9ZHn5B9ZH",
  "n5C9ZHn5D9ZHn5E9ZHn5F9ZHn5G9ZHn5H9ZHn7A9ZHn7B9ZHn7C9ZHn7D9ZHn7E9ZHn7F9ZHn7G9ZHn7H9ZHn7A9ZHn7",
  "B9ZHn7C9ZHn7D9ZHn7E9ZHn7F9ZHn7G9ZHn7H9ZACHn7Q9ZH9R9ZH9M9ZBBABHn9W9ZECPGn7QG9MH9R9ZHhA4TG9ZHh",
  "A4THhA6CIhA4I6CHn7U9ZH9X9ZH9O9ZBBABHn+G9ZGn7SG9NGn7UG9OH9X9ZIhA4T4AIhA4T4BIhA4T6CADG8QBCACEC",
  "PGn7WG9PBBIhA4U4AIhA4U4BIhA4U6CADG9QAEECPGn7aG+NGn-FIhA4I4AIhA4I4BGjABCHn7c9ZH+J9ZH+O9ZBBABH",
  "n-W9ZGn7YG+MGn7cG+OH+J9ZHhA4BHhA4UBBDLBhACBACBCABGogQAFHhA5TAMBDABBHGhAADHohSohSIohSohSohSAB",
  "HohVohVIohVohVohVAEHhBhBABHhA4FAIHhfhfHhfhBHhBhfANJohSohSohSohSAHGhACFBFCGGhQGjJBCEGwjfGhLGo",
  "wSGhdECwlJGjOEKwkfGhLGowSGhdECwmJABGjBGjFGjPGjYGyZGjIEEwiVGjQECwiPALHjSjTAcBLAhBBPIjBhPjDIjB",
  "hPjTGjDHlQjDABIjDhPjPIjDhPjVGybABHlQjGECwqFDDBjIGpHDCBjJDCBjMABGjOHjOjPACEDwqRDCBjSACHjTjNIj",
  "UjFjMHjUjNABGjaABG+JABGjaABGjLGnFECwsTABDCBjFGjGGoqOGjNGjPEEt2JGjJABIjGjBjYG+ADCB9TG+AGowRAE",
  "DCBjEGjFECwtdAGIhRoiEhXIhRoiEhZJhRoiEhRhQIhRoiEhTIhSoiEhTIhRoiEhVIhSoiEhVIhToiEhVIhUoiEhVIhR",
  "oiEhWIhVoiEhWIhRoiEhYIhToiEhYIhVoiEhYIhXoiEhYHhRoiEGjJHjJjJIjJjJjJHjJjWGjWHjWjJIjWjJjJJjWjJj",
  "JjJHjJjYGjYHjYjJIjYjJjJGjMECwwTGjNGjJHjJjJIjJjJjJHjJjWGjWHjWjJIjWjJjJJjWjJjJjJHjJjYGjYHjYjJI",
  "jYjJjJGjMECwxTGjNADGosEAFIhQoiEhTACBEAkcHoxLoxLIoxLoxLoxLABHoxOoxOIoxOoxOoxOAnYECmteAnfBWALB",
  "VEJyidHhRhQHhRhRHhRhSHhRhTHhRhUHhRhVHhRhWHhRhXHhRhYHhRhZHhShQIhIhRhJIhIhShJIhIhThJIhIhUhJIhI",
  "hVhJIhIhWhJIhIhXhJIhIhYhJIhIhZhJJhIhRhQhJJhIhRhRhJJhIhRhShJJhIhRhThJJhIhRhUhJJhIhRhVhJJhIhRh",
  "WhJJhIhRhXhJJhIhRhYhJJhIhRhZhJJhIhShQhJBUIhIjBhJIhIjChJIhIjDhJIhIjEhJIhIjFhJIhIjGhJIhIjHhJIh",
  "IjIhJIhIjJhJIhIjKhJIhIjLhJIhIjMhJIhIjNhJIhIjOhJIhIjPhJIhIjQhJIhIjRhJIhIjShJIhIjThJIhIjUhJIhI",
  "jVhJIhIjWhJIhIjXhJIhIjYhJIhIjZhJIhIjahJEaylJEaymdGhQAhpBJoxLoxLoxLoxLAjHIhahahdHhdhdIhdhdhdA",
  "jFHq2d5YAkXBCAkKEhQjAAhQGrjBABGzLGnrdGzdACFGGyRGzRGyQGySABGrjTACGrjWAGGjKGjWEC1jdFjEAHFEADGr",
  "nTABBFAhNBBABBFABBCAhYBHGrrBABBOAYBJAHBBAHBBAHBBAHBBAHBBAHBBAHBBAHBBAjeBhCAaBBAEG6+NAiTGhn8f",
  "BMGzwAGzxIGzxWGzxfGzyZGz0FGz0MGz1AGz1aG0pfG0rFG0rLG0sCG0sWG0tLG0vAG0vVG0wAG00bG03ZG04VG04aG0",
  "5YG06BG06cG07JG08CG09WG0+IG0-DG12XG14fG2nLG2oCG2oKG2oVG2pHG2rTG26QG28AG2-YG3gPG3hCG3hYG3jOG3",
  "jRG3ubG3vFG3vRG3veG3zSG3zaG3zfG33UG33eG34LG34TG36QG37BG37TG3+DG4wIG4xWG4yLG5pPG5pUG5sHG5sXG5",
  "tEG5tZG5vAG5vFG53QG54IG55IG65AG67CG67ZG69TG6+LG6+UG6+bG7gPG7gUG7hUG8jLG8xKG8xWG8xbG8xfG8yHG8",
  "yZG8ybG81MG88EG88JG9mcG9nGG9oYG9ofG9pIG9pQG9sLG9sSG9zWG9zdG91OG91fG93OG9+bG9-CG9-TG+paG+tYG+",
  "teG+zUG+2LG+3ZG-jTG-nYG-5WG-6RG-8KG-9dGhggBGhggMGhggSGhghTGhgjfGhgkJGhgvDGhgvKGhgvTGhgvcGhgw",
  "MGhgwbGhgwfGhgzOGhgzSGhgzYGhhyNGhhzLGhiiAGhiiMGhijDGhireGhisLGhiuSGhiwAGhjhXGhjiGGhjiVGhjjYG",
  "hjkdGhjrEGhjrQGhjtTGhj1LGhj2KGhj8bGhj9QGhj9VGhkkRGhkqJGhkuGGhkuMGhkuRGhlrXGhlsAGhlwcGhl1WGhl",
  "1ZGhl3IGhl6RGhl6eGhl7CGhl7JGhl+LGhl-NGhl-TGhmgBGhmlIGhmmbGhmmfGhmsWGhmsZGhmtMGhm1IGhm2YGhm2f",
  "Ghm5FGhm5PGhm5SGhm5cGhm6aGhnnFGhnzVGhnzfGhn1FGhn1bGhn2DGhn2NGhn2RGhn3ZGhn3dGhn4OGhn4TGhn5AGh",
  "n5bGhn6KGhn6SGhn8NGhn8cGhn9ABhKGhAABGhOAhTGsgSABG06BECxwWAFBBAiWBCACHhAskZHhAskaACHskIskKAif",
  "HslTsmIBFAhLBBECwjBGktKGkoCECv4REDwjHEGv4TGkoaEDwjVGkpBEKwjXEVv+bCBECwlBECv5fGkuMGkuOGkuTGku",
  "XGkuZGkocGkudGkufECwlHGkpAECwlDGkpHGkpJEFwkZGkpSGkpWGkqAGkqHGkqMECv5BEDwiZECwgFGksIECv-RGksU",
  "GkseGktBBBACGzwAGz0MGzwJG12bGzwKGzxNGzwLG9pSGzyZGzwZGzwBG2pJG15QGz1aAiGBKAQIhIkoAhJIhIkoChJI",
  "hIkoDhJIhIkoFhJIhIkoGhJIhIkoHhJIhIkoJhJIhIkoLhJIhIkoMhJIhIkoOhJIhIkoPhJIhIkoQhJIhIkoRhJIhIko",
  "ShJIhIhrgAhJIhIhskYhJIhIhs3EhJIhIht7chJIhIhuuIhJIhIhvgUhJIhIhwlMhJIhIhxqEhJIhIhx8QhJIhIhzhIh",
  "JIhIhzzUhJIhIh0mAhJIhIh04MhJIhIh1qYhJIhIhynchJJhIhxxEhygEhJJhIhxxEh12EhJBBIhIzwAhJIhIz0MhJIh",
  "IzwJhJIhI12bhJIhIz0UhJIhI0rNhJIhIzwDhJIhI0rLhJIhIzydhJIhI06BhJIhI54IhJIhI8jLhJIhI7hUhJIhI55I",
  "hJIhIhkuRhJIhI14fhJIhI5vFhJIhI6hKhJIhI54JhJIhI+pehJIhI1gNhJIhI8zZhJIhIhjlBhJIhI+qdhJIhI01UhJ",
  "IhIz3DhJIhI1jchJIhI27GhJIhI93DhJIhIz4BhJIhIhjmHhJIhI06UhJIhI+rNhJIhIz4RhJIhIhgvKhJIhIhgvThJG",
  "1qPG3zcG5sHG+8PAIIjQjUjFHhShRHhShSHhShTHhShUHhShVHhShWHhShXHhShYHhShZHhThQHhThRHhThSHhThTHhT",
  "hUHhThVGkoAECw1dEDw1bGkoJECw1XEFw1VGhrgAGhskYGhs3EGht7cGhuuIGhvgUGhwlMGhxqEGhx8QGhzhIGhzzUGh",
  "0mAGh04MGh1qYHhzhYhrnAHhynchx6YGhx1QABGzwAGz0MGzwJG12bGz0UG0rNGzwDG0rLGzydG06BG54IG8jLG7hUG5",
  "5IGhkuRG14fG5vFG6hKG54JG+peG1gNG8zZGhjlBG+qdG01UG+uYG9pXG2rTGhkjJG0pKG07QG7nIGhmgFGz4RG0sZG6",
  "7DGzwKGzxNGzwLG3vGG0-TG05bG28XG27GG93DGz4BGhjmHG06UG2ocHhThWHhThXHhThYHhThZHhUhQHhUhRHhUhSHh",
  "UhTHhUhUHhUhVHhUhWHhUhXHhUhYHhUhZHhVhQHhR54IHhS54IHhT54IHhU54IHhV54IHhW54IHhX54IHhY54IHhZ54I",
  "IhRhQ54IIhRhR54IIhRhS54IHjIjHIjFjSjHHjFjWIjMjUjEGslCGslEGslGGslIEChiTGslNGslPGslRGslTGslVGsl",
  "XGslZGslbGsldGslfGsmBGsmEGsmGGsmIEGhhTGsmSGsmVGsmYGsmbEFhgfGsnEGsnGEGhgZEEhgXHz3E1kMJslCsmRs",
  "ncsmIJslCsnLsmVslBJslCsnTsmaslCIslCsncsnLJslEsmLsnTslQIslEsnTsmBIslGslJsnTKslIslZslPsncsmJJs",
  "lIsncslLsncIslKsnTslZIslKsncsnAIslLslEsnKJslLsnJsmDsmIJslLsnNsnKsncIslMsnNsnTIslMsnTsmeHslOs",
  "lMIslOsmLsncJslNsnFsnKsncJslOsnLsmAsncHslNsnNKslNsnNslQsnJsnALslNsnNsnBsncsmIsnLKslNsnNsnPsm",
  "DsmIIslQsnJsnAKslQsnJsnAsmIsnTKslPsnLslcslEsnNJslPsnNsncsmNIslRsncslZIslTsnLsmKIslTsncsmdJsl",
  "VslEslPsnLKslVsnTsmBsncsnAJslXsnKsnTslQIslbsnTsmBIslbsnTsmIIsmAsncslZHsmHslXHsmJsnLHsmIsnTHs",
  "mKsmOIsmOsmDsmIIsmPslEsmEKsmRsncslbsnTsmIIsmRsncsmEJsmQsncsnMsnLKsmUslCslZsmIsnLIsmUslPsnLHs",
  "mUslTHsmTsnLKsmVslBsnJsmDsmJJsmVslDsncsmIKsmWsmDslXslHsnLIsmVsnJsnTKsmYslPslfsncsnLHsmasldIs",
  "masmLsmSIsmYsnLsmEIsmasnTslZIsmasncslYIsmZsncslfJsmdslEsnTsmIIsmcsnLsmIHsmbsnTIsmdsnTsmJIsmb",
  "sncsnLIsmbsncsnTJsmeslEslPsnNIsmeslEsnLIsmesmDsmPIsmesnLslPKsmesnTslXsnHsnTJsmfslPsnNsnTHsmf",
  "snKKsmfsnKsmQsncsnLHsnBslMJsnBslMsmIsnTJsnBsncsmIsnLIsnEsncsmJIsnEsncsnLIsnGslCsnTJsnKsmDsmI",
  "snLHsnKsnJIsnLsmUsncJsnLsncsmWsnLHsnMsnAKsnMsnTsmIslSsnTIsnPsmDsmIHhQ8lZHhR8lZHhS8lZHhT8lZHh",
  "U8lZHhV8lZHhW8lZHhX8lZHhY8lZHhZ8lZIhRhQ8lZIhRhR8lZIhRhS8lZIhRhT8lZIhRhU8lZIhRhV8lZIhRhW8lZIh",
  "RhX8lZIhRhY8lZIhRhZ8lZIhShQ8lZIhShR8lZIhShS8lZIhShT8lZIhShU8lZIjIjQjBHjEjBHjBjVIjCjBjSHjPjWH",
  "jQjDHjEjNIjEjNhSIjEjNhTHjJjVH3zT4wQH5xN1kMH2pH67DH5wO7lbJ6hK34Pz4a+peHjQjBHjOjBH9cjBHjNjBHjL",
  "jBHjLjCHjNjCHjHjCIjDjBjMJjLjDjBjMHjQjGHjOjGH9cjGH9cjHHjNjHHjLjHHjIjaIjLjIjaIjNjIjaIjHjIjaIjU",
  "jIjaH9cjMHjNjMHjEjMHjLjMHjGjNHjOjNH9cjNHjNjNHjDjNHjLjNIjNjNhSIjDjNhSHjNhSIjLjNhSIjNjNhTIjDjN",
  "hTHjNhTIjLjNhTIjNowVjTJjNowVjThSHjQjBIjLjQjBIjNjQjBIjHjQjBIjSjBjEKjSjBjEowVjTLjSjBjEowVjThSH",
  "jQjTHjOjTH9cjTHjNjTHjQjWHjOjWH9cjWHjNjWHjLjWHjNjWHjQjXHjOjXH9cjXHjNjXHjLjXHjNjXHjL+JHjN+JBBH",
  "jCjRHjDjDHjDjEJjDowVjLjHBBHjEjCHjHjZHjIjBHjIjQHjJjOHjLjLHjLjNHjLjUHjMjNHjMjOIjMjPjHHjMjYHjNj",
  "CIjNjJjMIjNjPjMHjQjIBBIjQjQjNHjQjSHjTjSHjTjWHjXjCIjWowVjNIjBowVjNHhR5vFHhS5vFHhT5vFHhU5vFHhV",
  "5vFHhW5vFHhX5vFHhY5vFHhZ5vFIhRhQ5vFIhRhR5vFIhRhS5vFIhRhT5vFIhRhU5vFIhRhV5vFIhRhW5vFIhRhX5vFI",
  "hRhY5vFIhRhZ5vFIhShQ5vFIhShR5vFIhShS5vFIhShT5vFIhShU5vFIhShV5vFIhShW5vFIhShX5vFIhShY5vFIhShZ",
  "5vFIhThQ5vFIhThR5vFIjHjBjMA8kNBDAhXBJAqcBUFhOASFcGhiKGhiMAiaBIAhCFOACFheGhp7PAIFEGnrZFKADGhp",
  "8MABGzFACFEACFUGzGGycGzBGzMGzKABG0eG0HG0dGhq6TFQGhp8UG0CGnsOFEGzEFQGsbACBSGjTGjDGjGGjRGhp-WA",
  "CGpHGqTAhTBDAKBGAhYBIAiGBIAMBGAjUBLAeBDAiOBBALBEAhBBBAhXBJAOBCAKBCAjHBYAcBKAGBCAGBCAGBJAHBBA",
  "HBBAhMGhp5HGhq5XGzLGhq6SAJG0NACBEEiQir8fAhOBCAKBGAq9EBMAXBEAhRBooEGhjiIG53UGhj2KGhjmIG72RGzx",
  "SG0-FDCBhn8cG2qRGhkuRG1sHG2qIG4vWG9zJG-8FGhhxfGhh9aGhinYGhkkPG6wCG7obG8mZG8+eGhhhdGhkrKGhmvR",
  "Gz0CG07VG64EG8wbGhhxNGhnweG3qQG7-LGhhuNGhirEG42JGhguYGhigfG32KG54XG7rKG83cGhkmOGz8GG0tXG02eG",
  "5mEG62TG8wQG93HGhggBGhhwGGhhycGhjvPGhl5SGhm7PGhnvaG+kMG+rfG-tAGhg+JGhk4EGhnzfGhi2WG2mfG34EG-",
  "jAGhgjeG8zCG+mKGhjmCGhl3XG2mYG3jCG6wTG7uaG74PG-pPG-xXGhlyLG02SGhgkLG0ucG0uMG+wcG-teGhg-RGhlz",
  "VGhi8AG42PG6wCGhi3eGzxZG2-HG4gSG88HG9rQG04XG+nbGz9fG39JGzwNG7mMG5rYG-pCG0+DG2ieG94BGhhiJGhi1",
  "KG69aGhj9QG7kIG43eGhg3FG49AG9rFGz1OG0rJG0uJG6kBG-nHGhgzPGhi2SGhkuPG03VG1iCG2rTG33MG5uFG7-eG+",
  "pKGhltNGhmzKGhn0XGhn2OG00bG52GG67XGhj7CG3zUG4sQG4wAG5kaG75DG8qJG9kJG+uKG-vUGhgjPGhj5GGhhnOGh",
  "khDGhk6KG0wXG01DG1ldG8mIGhimCGhi1KG32JG3-VG47bG69OG-heG87VGz3EG13ZG2-HG3taG4gcG89SG9jJG-8aGh",
  "giGGhkxUGhl3WGhl6IGhmgYGz8LG+tOGhktUGhl1YG4nBGz0GG0maG2-OG3hfG5sZG6wCG8uOG9yCGhhncGhkjcGhn8N",
  "G50IGhlxOG00JG57bG5-TG7qBG70cG9gJG9qZG+jLG-oQGhmieG0rNG4xOGhlzYG0hLG3oZG7vKGhj5KG38LG4qEG6gX",
  "G88HGhl0GG0xJG1gPG3jFG5wTG56OG6lIG7nFG9gGG9vCG-7ZGhimPGhinBGhkuMGhl3CG05fG71aG1gdG8uQG9kYGhh",
  "vaGhl1DGhniXGhn0fG58XG7uLGhgvIG+2LG+5AG-kSG82AG8kZGhi6YGz2AGhg5WG0xaG0wHG31GG42TG-mWG28FG7oe",
  "G51UGhj5bGhiiMGhlyNGhisLG32TG0qAG1uAACG2iaABG5zUACG0ueG85KG92KG+pcG+qeG+rFG+sPGhl6WG-leG-9dA",
  "BGhhwSABGhi3YACGhkhYGhkndADGhmnPGhmncGhmpIGhntUGhkmeGhl1XGz9OG0nHG0qNG02JG03EG06RG1sdG1wGG1z",
  "IG2iAG2lIG3jEG3jOG4kUG4rIG4sOG4vSG5qPG5vCG50RG6kFG7rXG7waG75CG8rOG8xLG9hCG+kRG+peG+qJG+qIG+q",
  "QG+qWG+qdECigsJG+yAG+0BG++AG-vUG-wJG-yBG-7SGhggFGhgvNDCBhgzZGhhiXGhioQGhisWGhi4BGhi5ZGhjmTGh",
  "joIGhj9WGhkhYGhl3DGhl-fGhmhbG4jVGkw3OGhgwYBCGzxGG0tVG0rIGz8AG0qFG0sAG02HG03aG1sdG1qVG1sZG1vC",
  "G2iaG2lTG2qEG2qUG2zCG25IG32SG32ZG37JG39NG4mYG4qOG4oIG4sOG4rAG4vSG4xUG4+EG5gcG5iSG5qWG5zUG54X",
  "G54bG56WG67ZG69aG7qBG72bG72LG75CG8geG8rOG99HG8xVG81PG85KG9jRG9oGG9pbG9wdG9wfG92KG92bG93UG96K",
  "G96AG+mMG+1RG++AG-jbG-qbG-vUG-5eGhggFGhg6SGhg-PGhh7ZGhiqBGhisGGhisWGhi1fGhi3YGhi2LGhi4BGhi3e",
  "Ghi3NGhi5ZGhi8KGhjoIGhj5YGhkjSGhksZGhkzWGhlzcGhl3DGhl6WGhl+bGhl-fGhmgLGhmhbGhm4SGhn8cGkqiKGk",
  "qiEGks+VGu8dGwgYGwhZGk0yJGk3mQGk-2TGhn6DGhn8OBhGHjGjGHjGjJHjGjMIjGjGjJIjGjGjMDCCjTjUBMHhrUhr",
  "WHhrUhrFHhrUhrLHhrehrWHhrUhrNBFHhuZhtUABHhvShtXGhvCGhuQECj60dEDj60RGhvIGhvKGhLHhvJhuBHhvJhuC",
  "IhvJhtchuBIhvJhtchuCHhuQhtXHhuQhtYHhuQhtcHhuRhtcHhuShtcHhuThtcHhuUhtcHhuVhtcHhuWhtcBBHhuYhtc",
  "HhuZhtcHhuahtcHhubhtcHhuchtcBBHhuehtcBBHhvAhtcHhvBhtcBBHhvDhtcHhvEhtcBBHhvGhtcHhvHhtcHhvIhtc",
  "HhvJhtcHhvKhtcHhuVhtZHhuRhtfHhubhtfHhvEhtfHhuQhucDCBhzRDEBhzbDEBhzeDEBh0ADEBhzaDEBhzfDEBhzZD",
  "EBh1EDEBh1GDEBh0EDEBh0DDEBh0GDEBh0HDCBh0NDCBh0MDCBh0ODCBh0IDCBh0YDCBh0RDEBh1JDEBh1PDEBh1TDEB",
  "h1RDCBh1aDEBh1bDCBh2ADEBh2BDEBh1eDCBh2SDCBh2TAhBDEBh1NDCBh2HDCBh2GDCBh2IHh2HhzUDCBh2LDCBh2FD",
  "CBh2JDEBh2QDCBhyJDCChxGhxHDCChxGh2VDCChxGhyIDCChxGh2HDCChxGh2GDCChxGh2IDDChxGh2QDDChxGhyJDEB",
  "h2MHhxGhxMHhxGhxNHhxGhyFHhxGhyJHhxGhyKHhxIhxMHhxIhxNHhxIhxOHhxIhyFHhxIhyJHhxIhyKHhxKhxMHhxKh",
  "xNHhxKhxOHhxKhyFHhxKhyJHhxKhyKHhxLhxMHhxLhyFHhxLhyJHhxLhyKHhxMhxNHhxMhyFHhxNhxMHhxNhyFHhxOhx",
  "MHhxOhxNHhxOhyFHhxThxMHhxThxNHhxThxOHhxThyFHhxVhxNHhxVhyFHhxWhxMHhxWhxNHhxWhxOHhxWhyFHhxXhxN",
  "HhxXhyFHhxYhyFHhxZhxMHhxZhyFHhxahxMHhxahyFHhyBhxMHhyBhxNHhyBhxOHhyBhyFHhyBhyJHhyBhyKHhyChxNH",
  "hyChyFHhyChyJHhyChyKHhyDhxHHhyDhxMHhyDhxNHhyDhxOHhyDhyEHhyDhyFHhyDhyJHhyDhyKHhyEhxMHhyEhxNHh",
  "yEhxOHhyEhyFHhyEhyJHhyEhyKHhyFhxMHhyFhxNHhyFhxOHhyFhyFHhyFhyJHhyFhyKHhyGhxMHhyGhxNHhyGhxOHhy",
  "GhyFHhyGhyJHhyGhyKHhyHhxMHhyHhyFHhyHhyJHhyHhyKHhyKhxMHhyKhxNHhyKhxOHhyKhyFHhyKhyJHhyKhyKHhxQ",
  "hzQHhxRhzQHhyJhzQIhAhyMhyRIhAhyNhyRIhAhyOhyRIhAhyPhyRIhAhyQhyRIhAhyRhzQHhxGhxRHhxGhxSHhxGhyF",
  "HhxGhyGHhxGhyJHhxGhyKHhxIhxRHhxIhxSHhxIhyFHhxIhyGHhxIhyJHhxIhyKHhxKhxRHhxKhxSHhxKhyFHhxKhyGH",
  "hxKhyJHhxKhyKHhxLhxRHhxLhxSHhxLhyFHhxLhyGHhxLhyJHhxLhyKHhyBhyJHhyBhyKHhyChyJHhyChyKHhyDhxHHh",
  "yDhyEHhyDhyFHhyDhyJHhyDhyKHhyEhyFHhyEhyJHhyEhyKHhyFhxHHhyFhyFHhyGhxRHhyGhxSHhyGhyFHhyGhyGHhy",
  "GhyJHhyGhyKHhyJhzQHhyKhxRHhyKhxSHhyKhyFHhyKhyGHhyKhyJHhyKhyKHhxGhxMHhxGhxNHhxGhxOHhxGhyFHhxG",
  "hyHHhxIhxMHhxIhxNHhxIhxOHhxIhyFHhxIhyHHhxKhxMHhxKhxNHhxKhxOHhxKhyFHhxKhyHHhxLhyFHhxMhxNHhxMh",
  "yFHhxNhxMHhxNhyFHhxOhxMHhxOhyFHhxThxMHhxThxNHhxThxOHhxThyFHhxVhxNHhxVhxOHhxVhyFHhxWhxMHhxWhx",
  "NHhxWhxOHhxWhyFHhxXhxNHhxYhyFHhxZhxMHhxZhyFHhxahxMHhxahyFHhyBhxMHhyBhxNHhyBhxOHhyBhyFHhyChxN",
  "HhyChyFHhyDhxMHhyDhxNHhyDhxOHhyDhyEHhyDhyFHhyEhxMHhyEhxNHhyEhxOHhyEhyFHhyEhyHHhyFhxMHhyFhxNH",
  "hyFhxOHhyFhyFHhyGhxMHhyGhxNHhyGhxOHhyGhyFHhyGhyHHhyHhxMHhyHhyFHhyHhzQHhyKhxMHhyKhxNHhyKhxOHh",
  "yKhyFHhyKhyHHhxGhyFHhxGhyHHhxIhyFHhxIhyHHhxKhyFHhxKhyHHhxLhyFHhxLhyHHhxThyFHhxThyHHhxUhyFHhx",
  "UhyHHhyDhyEHhyDhyFHhyEhyFHhyGhyFHhyGhyHHhyKhyFHhyKhyHIhyAhyOhyRIhyAhyPhyRIhyAhyQhyRHhxXhyJHh",
  "xXhyKHhxZhyJHhxZhyKHhxahyJHhxahyKHhxThyJHhxThyKHhxUhyJHhxUhyKHhxNhyJHhxNhyKHhxMhyJHhxMhyKHhx",
  "OhyJHhxOhyKHhxVhyJHhxVhyKHhxWhyJHhxWhyKHhxUhxMHhxUhxNHhxUhxOHhxUhyFHhxUhxRHhxThxRHhxVhxRHhxW",
  "hxRHhxXhyJHhxXhyKHhxZhyJHhxZhyKHhxahyJHhxahyKHhxThyJHhxThyKHhxUhyJHhxUhyKHhxNhyJHhxNhyKHhxMh",
  "yJHhxMhyKHhxOhyJHhxOhyKHhxVhyJHhxVhyKHhxWhyJHhxWhyKHhxUhxMHhxUhxNHhxUhxOHhxUhyFHhxUhxRHhxThx",
  "RHhxVhxRHhxWhxRHhxUhxMHhxUhxNHhxUhxOHhxUhyFHhxThyHHhxUhyHHhxXhyFHhxThxMHhxThxNHhxThxOHhxUhxM",
  "HhxUhxNHhxUhxOHhxXhyFHhxYhyFDCChxHhyLASIhxKhxMhyFDCDhxKhxNhxMIhxKhxNhyFIhxKhxOhyFIhxKhyFhxMI",
  "hxKhyFhxNIhxKhyFhxODCDhxMhyFhxNIhxNhyFhyKIhxNhyFhyJIhxThxNhxMIhxThxMhxNIhxThxMhyJDCDhxThyFhx",
  "NIhxThyFhxMDCDhxThyFhyFDCDhxVhxNhxNIhxVhyFhyFDCDhxUhxNhyFIhxUhxMhyKDCDhxUhyFhxODCDhxUhyFhyFI",
  "hxWhxNhyJDCDhxWhxOhyFDCDhxXhyFhxNIhxXhyFhyFIhxXhyFhyKIhxZhxMhyFDCDhxZhyFhyFIhxZhyFhyJIhxahyF",
  "hyFIhxahyFhyKIhxahyFhyJDCDhyBhxOhyFIhyChyFhxNIhyChyFhyFIhyEhxNhyFIhyEhxNhyKIhyEhxNhyJDCDhyEh",
  "xMhxMDCDhyEhxOhyFDCDhyEhyFhxNIhyFhxNhxMIhyFhxNhyFIhyFhxNhyKIhyFhxMhxNIhyFhxMhyFIhyFhxOhxMIhy",
  "FhxOhyFACIhyFhxMhxOIhyHhyFhxMIhyHhyFhyFIhyGhxNhyFIhyGhxNhyJDCDhyGhxMhyFIhyGhxMhyJIhyGhyFhyKI",
  "hyGhyFhyJDCDhyKhyFhyFIhxIhxOhyKIhxKhxMhyKIhxKhxMhyJIhxKhxOhyKIhxKhxOhyJIhxKhyFhyKIhxKhyFhyJI",
  "hxMhyFhyKIhxMhxNhyJIhxMhyFhyJIhxThxOhyJIhxVhxNhyKIhxUhxNhyKIhxWhxNhyKIhyEhxMhyKIhyEhyFhyKIhy",
  "KhxNhyKIhyKhxMhyKIhyKhyFhyKIhyFhyFhyKIhyChyFhyKIhyGhxNhyKIhyChyFhxNIhyEhxNhyFIhxZhyFhyKIhyDh",
  "yFhyKIhyGhxMhxNIhyFhxOhyKIhyEhxMhyFIhyDhyFhyFIhyEhxMhyFIhyGhxMhxNIhxMhxNhyKIhxNhxMhyKIhyFhxM",
  "hyKIhyBhyFhyKIhxIhxNhyKIhyDhyFhyFIhxZhxMhyFIhxVhyFhyFIhxThxOhyKIhyGhxMhyKAIBhAIhxVhyEh2SIhyC",
  "hyEh2SJhxHhyEhyEhyHJhxHhyDhxIhxRJhyFhxNhyFhxPJhxVhyEhxZhyFJhxRhxThyIhyEJhxZhyEhyKhyHJhyIhxTh",
  "yEhyFIhxVhyEhyJXhxVhyEhyJhAhxHhyEhyEhyHhAhxZhyEhyKhyHhAhyIhxThyEhyFNhxMhyEhAhxMhyEhxHhyEhyHJ",
  "hxRh2MhxHhyEADCQGhMGsgBBBECj+9RGhBGhfECjngBBHAQBBGogUGogTDCBifECj-gZGjbGjdECjniJECjniVECjnjF",
  "ECjnjNEEjnjJACGibGidDEChA4FDDBifGhMGsgBBCGhbGhaGhfGhBGogUECj-jBGjbGjdECjnkRGhDGhGECj-jNGhNGh",
  "cGheGhdBBGicECj-kJGiABEHhAhyLHhyAhyLHhAhyMABHhAhyNBBHhAhyOHhyAhyOHhAhyPHhyAhyPHhAhyQHhyAhyQH",
  "hAhyRHhyAhyRHhAhySHhyAhySECj8ldECj8lfECj8mBECj8mDECj8mFDDBhxGDCBhxHDEBhxIDCBhxJDEBhxKDEBhxLD",
  "EBhxMDEBhxNDEBhxODCBhxPDCBhxQDCBhxRDCBhxSDEBhxTDEBhxUDEBhxVDEBhxWDEBhxXDEBhxYDEBhxZDEBhxaDEB",
  "hyBDEBhyCDEBhyDDEBhyEDEBhyFDEBhyGDEBhyHDCBhyIDCBhyJDEBhyKDCChyEhxCDCChyEhxDDCChyEhxFDCChyEhx",
  "HBCCBBBEhAj-tfEaj-rfEhEj-tfECjq9TGhOECjn1LGsgBGsnbGsnSGslBGslDGslFGslHGslJGsnDGsnFGsnHGsmDGs",
  "ncGslCGslEGslGGslIECjnsVGslNGslPGslRGslTGslVGslXGslZGslbGsldGslfGsmBGsmEGsmGGsmIEGjnrVGsmSGs",
  "mVGsmYGsmbEFjnrBGsnEGsnGEGjnqbGsnPGsnTECjnwJCBECj3qBGktKGkoCECj2-REDj3qHEGj2-TGkoaEDj3qVGkpB",
  "EKj3qXBDEGj3mBBCEGj3mFBCEGj3mJBCEDj3mNBDECj-zbGlMHhA4EGlGGlFGolJBBGpoCEEjvlRGptAGpuLBRAMBBAa",
  "BBATBBACBBAPBCAOBhCAjbBFADBEAhNBDAiYBBANBDABBhPAhOBkCAdBDAhRBPAcBEAhEBJAeBFAhLBFAeBBAhFBEAOB",
  "hKEhIiQAjWBCAKBGEhEiQBEAhEBEAhIBIAhUBLABELiOBBEPiOBBEHiOBBECiOBBALBBAPBBAHBBACBDAhUBMApXBJAW",
  "BKAIBYABECkirBGnGG0ZGyTBBG1DGhq7GG1FG1EECkizJGnsRGyYGyeG1JGzEGzCGzAG0bGpHG0cGzHG0EECkiudGzMG",
  "j34EGhp8OGzOGj34FG0OGj34GGnYECkiyZGjRGzaGj34IECkiyVG0AG1IG1GGhq7HG1HG0IGrjRBBG0PECkixDG0YEDk",
  "i-LGj34KGj34eACBiDAGBCABBBAhMBBACBDABBCAXBBAiIBIAJBhQATBBACBFAhBBDAbBFAbBhGAhYBEAUBCAhSBBACB",
  "FAIBBADBBAdBCADBEAKBHAJBHAiABhAAhHBEAMBJAhWBDAdBCAbBFAaBHAEBMAHBiQAiJBhXEhTkABNAhTBHAhOBIAKB",
  "GAQEWiABDAdBIACBmQAfBBAhKBBADBCACBQAGBIAJBcAhTBIAhKBWAaBhGAcBUAXBJAiOBEAhEBJAheBBAFBNAZBHAKB",
  "GAhVBBASBIAhHBJAjABBAUBLASBBAhPBheAHBBABBBAEBBAPBBALBGAhbBFAKBGAEBBAIBCACBCAWBBAHBBACBBAFBBA",
  "KBCACBCADBCABBGABBFAHBCAHBDAFBLAKBBABBCABBBAhGBBAKBBABBCABBBAEBBAKBBACBIACBdAicBBAFBeAiIBIAK",
  "BlGAhWBCAhGBhCAiFBLAKBGANBTAhaBGAKBGAUBcAbBCAPBEAXBlZAhcBjEEhAiAAhTBMAIBCABBCAIBBACBBAeBBACB",
  "CAMBJAKBiGAIBCAhOBCALBbAiIBIAiTBNAiJBHAKBiWAIBiYAhCBOAKBGAJBBAhNBBAOBKAdBDAhABCAWBBAOBiJAHBB",
  "ACBBAhMBDABBBACBBAJBIAKBGAGBBACBBAhFBBACBBAGBHAKBGAhMBEAKBnWAZBHARBBAhJBDAdBiVABBPAhSBNA8bBj",
  "GAjPBBAFBLAmEBMApXBioJAjDBNAhhQBQAWBKAj8bBFAyHBm1ZAhaBh2GAxZBHAfBBAKBEAiRBBAKBGAeBCAGBKAiGBK",
  "AKBBAHBBAVBFATBtQAhaBGAeBCAKBkWEhAiAAhbBFEZhWBCAZBhMAiLBEAhZBHARBiAAFBLAHBJAnmWBhJAhCBifAjTB",
  "NA8SBnyeAEBBAHBBACBBApDBPABBdADBCABBOAEBIAsMBioEAjLBFANBDAJBHAKBCAECEBj6cAmWEanmnJEKnmrfADBD",
  "AtUBGAXBPARBPAhOBCAXBJAjUBhcAnWBKAhHBCAhVHj0qXj0rFHj0qYj0rFIj0qYj0rFj0rOIj0qYj0rFj0rPIj0qYj0",
  "rFj0rQIj0qYj0rFj0rRIj0qYj0rFj0rSAOCIAiAHj0tZj0rFHj0taj0rFIj0tZj0rFj0rOIj0taj0rFj0rOIj0tZj0rF",
  "j0rPIj0taj0rFj0rPAhKBVAiGBKAhYBhYAUBMAUBMAiXBJAZBkHEanp5dEanp7REanp9FEHnp+ZBBESnp+ZEanqgNEan",
  "qiBGjBBBECnqjVBCGjHBCECnqjVBCEEnqjVBBEInqjVEEnqlJBBGjGBBEHnqlJBBELnqlJEanqmdEanqoRECnqqFBBEE",
  "nqqFBCEInqqFBBEHnqqFBBEanqrZECnqtNBBEEnqtNBBEFnqtNBBGjPBDEHnqtNBBEanqvBEanqwVEanqyJEanqzdEan",
  "q1REanq3FEanq4ZEanq6NEanq8BEanq9VEanq-JEanrgdEanriRGpRGxXBCERnpvNG9YEHnpvNGowHERnpxBDCB+DEGn",
  "pxBGowCG9VG9YG9aG+GG+BG+AERnpzBG9YEHnpzBGowHERnp0VDCB+DEGnp0VGowCG9VG9YG9aG+GG+BG+AERnp2VG9Y",
  "EHnp2VGowHERnp4JDCB+DEGnp4JGowCG9VG9YG9aG+GG+BG+AERnp6JG9YEHnp6JGowHERnp7dDCB+DEGnp7dGowCG9V",
  "G9YG9aG+GG+BG+AERnp9dG9YEHnp9dGowHERnp-RDCB+DEGnp-RGowCG9VG9YG9aG+GG+BG+ADCB+dBCEKnr5bEKnr6P",
  "EKnr7DEKnr7XEKnr8LA0MBPAFBBAPBhiQAfBGAGBmVAHBBARBCAHBBACBBAFBFEJnt-fEDnt-dELnt-bGhiLECnt-VGh",
  "p0JGhmZGhiWGhiYGhnJGhlPGhmPEJnuiBECnuhfECnuhbGhiBEGnuhXECnuhVGhkRGhiWGhiVGhifGhlLGhpyRGhlRBh",
  "BABBjQAhNBDAOBCAKBEACBqAAfBRAhaBFABBuQAhKBmWAhLBEABBmAAfBBAWBIACBnAAHBBAEBBACBBAPBBAmFBCAQBh",
  "JEhCiEAhKBEAKBEACB4RAiEBiMAhdBmCECnz9RGhxMGhxPBBGhyIGhxSGhxNGhxXGhyKEEnz8NGhxTGhxZGhyBGhxVGh",
  "yCGhxRGhxUECnz+VGhxOGhxQGhxWGhxYGhxaGhzOGh1aGh1BGhzPBBGhxIGhxMBBGhyHBCGhxNBBGhyKEEnz+NGhxTGh",
  "xZGhyBGhxVGhyCBBGhxUECn0gVGhxOBBGhxWBBGhxaBGGhxMBEGhxNBBGhyKBBGhyEBBGhyGGhxTGhxZBBGhxVGhyCBB",
  "GhxUBCGhxOBBGhxWBBGhxaBBGh1aBBGhzPBBGhxIGhxMBBGhyHBCGhxNGhxXGhyKGhyDBBECn0iNGhxTGhxZGhyBGhxV",
  "GhyCBBGhxUECn0kVGhxOBBGhxWGhxYGhxaGhzOBBGh1BBBECn0lRGhxMGhxPECn0jZGhxSGhxNGhxXGhyKBBEDn0kNGh",
  "xTGhxZGhyBGhxVGhyCGhxRGhxUECn0mVGhxOGhxQGhxWGhxYGhxaBFGhxIGhxMGhxPBBGhyIGhxSGhxNGhxXGhyKBBED",
  "n0mNGhxTGhxZGhyBGhxVGhyCGhxRGhxUECn0oVGhxOGhxQGhxWGhxYGhxaBhUACBoOAhMBEAjEBMAPBCAPBBAPBBAhFB",
  "LHhQhMHhRhMHhShMHhThMHhUhMHhVhMHhWhMHhXhMHhYhMHhZhMAFIhIjBhJIhIjChJIhIjDhJIhIjEhJIhIjFhJIhIj",
  "GhJIhIjHhJIhIjIhJIhIjJhJIhIjKhJIhIjLhJIhIjMhJIhIjNhJIhIjOhJIhIjPhJIhIjQhJIhIjRhJIhIjShJIhIjT",
  "hJIhIjUhJIhIjVhJIhIjWhJIhIjXhJIhIjYhJIhIjZhJIhIjahJIsgUjTsgVGjDGjSHjDjEHjXjaABEan4sdHjIjWHjN",
  "jWHjTjEHjTjTIjQjQjWHjXjDAaHjNjDHjNjEHjNjSAhDHjEjKAdBhYAaHsjbsiLHslTslTGslVBNG4yLG26XG0+MGsmH",
  "Gz0MG2oaGhivDG2pJGz1EG5xAG8pBG5sZG0yNG38MG0sNG5tQG0wdG-qCG9ofGhjlJG2nQG1hZG74UG40VG46VGzwAGz",
  "wJGhkiKG3vGGzxNG0-TG44HGhjrQG4yTG+sBG+zaG1gIG70AG54JG54IG9pTG0zSG1tWGhkqNBEIsgU55MsgVIsgUzwJ",
  "sgVIsgUz0MsgVIsgU28JsgVIsgU8lZsgVIsgU4yTsgVIsgU92XsgVIsgU02dsgVIsgU5qXsgVBHG38XG0-PBOAGBkaA+",
  "aBCARBDANBDAmaBGAMBEABBPAMBEAhYBIAKBGAhIBIAeBCAMBEACBOAJBhHAqYBIAOBCANBDAiHBBABBEARBBANBDAMB",
  "FAkTBBAicEKn97fABBhgFAhp3ABhAAkofBBAl0OBCAnpRBPAzOBitCGzxdGzxYGzyBGkgpCGz7AGz9OGz9bG0gCG0jaG",
  "0kZG0nHG0mPGtkeGkhxaG0qNG0qUG0rEG0rXGkhocGtlZG0rHG0sNGkhqLG0sXG0tEGz2MG0tMG0tVGlkufG0vVG0wDG",
  "tmfG0xbG0yGG0zSG0zXGtoVG02HG02JG03EG03aECqyyHG04XG06JG06RG06aG07TG07dDDB07fGkixMG8jQG0+KG0+f",
  "Gki7DG0-LG0-RG1gGG1keG1hYG1iIG1jIG1lCG1nWG1oQG1qTG1rDDCB1sEG1sZG1tLG1tTG1uCG14WG1wGG14XG1yRG",
  "1zUG0wHG2nOG1+OG1-UG2gNG18LG2hSG2hRG2lMGklnEG2nSG2nXG2oGG2oaG2pCG2rCGkl1IGkl3KG2vMG2wbG2xHG2",
  "uYG2zGGt3OGt3cG24IDCB25eGkmuIG2+DG2+YG2-HG2-TGkm4YG2-fG3gGG36TG3hCGt8BG3jAG3jOG3mAG3kNGknvEG",
  "3qDGknvGG3rOG3rLG3rcECqtpfGuhPG3vdG3xIG3xdG3zJGujCGkosDGujcG31QG31TG31WG32KGlo8SG33eDCBko5RG",
  "hgwBDCB35CGumHGks1YGk4uaG37CG37LGunDG38aG3+NG3+XG3-ZG4kBGupaGuocG4kUGkp2UG4mHG4qIG4qMG4qOG4q",
  "MG4raG4sOG4tSG4tEG4tPG4ueG4vSG4vWG4wQG4wbG4ydG41RG42UG46QGkq4MG45dG43cG47IG48DG4-EGkq-RG5hCG",
  "4+FG49JGuxOG5jJG5jeG5kdG5jXGuzMG5qPG5rMGksgKG5vDG53YG5yJGu4ZG50RGu4IGu3EG0sSG0sVG54AG50cGhgl",
  "NGw+ZG54XG54bG55BG56eG56TGks+DGu6JG5-aG58FG6iSG6kFGktjNG6kOG6gfG6oUGu8dG6qCG6tDG6vKG61IGkt1D",
  "G62bGvgYG65BGkulHG66UGviOG67SG68fECqmzVGku0NGknoLGku3aG7iOGkvlcG7lfG7mNG7jHG7oWG7peG7rXG7qBG",
  "7rJG7rYG7sFGkvoeG7pUG7xPG7zOGvpTG72LG72HGkv2RG7vZG77OGkv6eGkv8OG7+GG8hZG8geG8gbGvsWG8iKG8jdG",
  "8jXG8lNGkhpFG8qFGkwzDG8scGkw9LG8xIG8xVG8yQGkxwIG80AG80VGkx5VGkygUG87aG88LGv1MG89FDCBv1YG9iHG",
  "9icG9jRG9kFG9mKGv4bG9pEGkzhWG9peGkzkSG9rQGkosfG9wQGkz9BGkz9YGk0iEGv-cGwgIG93UGk0nTGk0nSGk0oZ",
  "Gk0pTECqhiNG94fG96KGwhZG98LGwiGGwkWGk1gdG+iOG+kMG+mMGwnDGk1xGG+qWGk10aGk12FG+sPG+vLGwpPG+yAG",
  "+yKG+yPGk2rcDCBk21HG+3OGwwCGk29LG++GG++JGwxHGk3kAG-mSGw1AG-nIG-nDG-oAGk38GG-rDGw4BG-uHG-wCG-",
  "yFGw5UGk4xIGk4yHGw6ZGk42ZG-7aGk45eG-8VG--aGhggFGk5maGk5pDGhgjAGk5tIGhgjQGks6fGw+VGhglSGhgoDG",
  "xgLGhgpeG21VGk59HGk59VGks8TGks8cGhgwBGhgwEGhj8eGxjLGhg0RGhg0LGhg0dG01TGhg1RGhg1TGhg1dGhg3GGk",
  "65cGhg3FGhg4dGhg7DGhg9NGhg5DGhg9dGhg-HGhhiXGhg6TGhg+KGhg+MGhg+cGk7hWGk7rLGk7mVGxpLGhhnRGhhnT",
  "GhhoWGk8+KGhhrEGk75MGxqdGxrBGk79RGk8mSGxrLGhhyQGhhycGhhzHGhhzJGhh1JGhh0IGhh4OGhh3CGhh7ZGhh5I",
  "Ghh7LGhh8GGxuXGhh-BGhigBGxvZGhijAGhijDGk9zHGhimXGhimeGxxVGhinaGtlbGk+lOGk+rGGx1eGx2HGhi1AGhi",
  "3NGhi8KGhjiVGk-lIGhjlLGhjmBGhjobGhjrXGk-5PGkigEGhjuLGhjtcGhjvQGkimeGhj2UGhj5YGlhuSGlhvNGhkkU",
  "GhknRGhkoRGlh5OGhkobGhkxYECpzxBGhkzcGhk-ZGhlgVGli-aGhlsLGysVGhltXGljrXGyvGGhl2DG3tSGhl5DGlkq",
  "FGlkwaGyzOGyzWGhl-AGllgKGy1SGllkWDCBhmgLGhmhJGlltWGhmnCGy5TGhmpJGhmtHGhmuCGhmveGy+OGlm5QGhm4",
  "SGhniAGhnndGzmOGznNGhnrHGlomOGznYGlooFGlowOGlo0RGhn1bGzqWGhn3ZGhn3eGhn4FGhn4PGhn4WGhn5bGlpwA",
  "BhvCAk6LBFAopKBhm8GAriAB0hmACnQBl-wQ"])

namespace Fate

/-- What becomes of a character at a place in its run. -/
def apply (place : Nat) (c : Char) : Fate → Option Text
  | kept => some [c]
  | refused => none
  | dropped => some []
  | replaced t => some t
  | moved distance => some [Char.ofNat (shifted c.toNat distance)]
  | paired => some (if place % 2 = 0 then [Char.ofNat (c.toNat + 1)] else [c])

end Fate

/-- What becomes of a character that is the `n`-th of the runs given. -/
def mapInRuns (c : Char) : List (Nat × Fate) → Nat → Option Text
  | [], _ => none
  | (length, fate) :: rest, n =>
    if n < length then fate.apply n c else mapInRuns c rest (n - length)

/-- What becomes of a character of a domain name. -/
def mapForDomain (c : Char) : Option Text :=
  if Text.isAscii c then some [c.toLower] else mapInRuns c fates c.toNat

end Unicode
end CurlScribe
