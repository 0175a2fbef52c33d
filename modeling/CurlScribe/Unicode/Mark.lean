import CurlScribe.Unicode.Packed

/-!
# Marks

Characters of the general category M, which belong to the character before them.
-/

namespace CurlScribe
namespace Unicode

/-- The marks in runs. -/
def markRuns : List Nat := unpack [
  "4AjQoTHoHhNBBBCBCBBBCiFLhQVQBjFHCGCCBEhDBebibLhaJJBYEBJBDBFhLDhbJhKYBhBhWDBSBHKCdDhYBBHCCCDJ",
  "BKCaBCDhYBBFECCDDBeCDBLDhYBBIBDBDUCWGBDhYBBHCCCDHDKCeBhbFDDBEJBhIFhXBBHBDBEHCLCdDhYBBHBDBEHC",
  "LCPBMEhXCBHBDBEJBKCdDiGBEGBBBISChdBCHMIjCBCJLHiJCbBBBBBEChRUBCFLBhEJBjEUXEEDBDCHDENMBBKE1fD9",
  "SEcDdCeCiAhAJBhNDBBjVChCBjWMEMmbFhZKBdCBhQhOCMUFhPRhGJMDeNhYOhQUkYDBVEBGBCDmGiA2QhBi-eDkNBjA",
  "hAxKGjJC9uUEBKhACiQCoQBDBEBXFEBiTChSSaSNBhGIZNhMEhPOhEBiDOMBIChNDhSBBDCCFCBBhJFFCnMIBCz5QB3B",
  "QQQ+NBnCBkVFh0GDBCFEhIDEBlFCxdEiBFpdCiILiGLhREjaDhVPhJBCCKEhNLHBhdDhEOQChMBMDhQOIEBCicMGBCBk",
  "dMVEhXCBHCCCDJBKCCHDFiDJBBCBBEBFBBOCiSSXBiRUnLHCJbCiSRjKNjFPoAPnVGBCCEBBBCkNHCHDBcKhIHBEIBJL",
  "hOQmGImHIBIiSWBOjaGDBBCBHBBiCFBCBFqbEJCBBhQHDFXBlnFBGPrmISiuAFhbHhgYBBhXHEiRBLCzlLCkzBhOCXwe",
  "FDGIICHeEkUDh9bhXEhSIBOBWFBPhqQHBRCHBCBFjEBlAHrXBhdEvcEneCnTBCBHCFBuaHjNH4l9VnQ"]

/-- Is the character a mark? -/
def isMark (c : Char) : Bool := inRuns false markRuns c.toNat

end Unicode
end CurlScribe
