import Mfi.Adv7613Timers
import Mfi.Arinc429.FilterInput
import Mfi.Arinc429.RxLength
import Mfi.Arinc429.RxFifo
import Mfi.Arinc429.RxMailbox
import Mfi.Arinc429.RxFlags
import Mfi.Arinc429.Link
import Mfi.Arinc429.SlaveFlags
import Mfi.Arinc708.RxErrors
import Mfi.Arinc708.RxTimers
import Mfi.Arinc708.RoundTrip
import Mfi.Arinc708.Hosts
import Mfi.AsmiCntrlr.Flash
import Mfi.AsmiCntrlr.RemoteUpdate
import Mfi.AvalonPwm
import Mfi.BondIfc
import Mfi.ClockDivider
import Mfi.Configurator
import Mfi.DdrReset
import Mfi.DevInfo
import Mfi.DiscrCmdIn
import Mfi.DiscrCmdOut
import Mfi.DpHotPlug
import Mfi.LdiBasic.Reciever
import Mfi.LdiDps
import Mfi.LdiDps2px
import Mfi.LedInterface
import Mfi.Lvds.RoundTrip
import Mfi.LvdsSerdes.Single
import Mfi.MixerLayers
import Mfi.PwmCalc
import Mfi.RkTransceiver
import Mfi.SplashScreen.Packets
import Mfi.Switch.Transfer
import Mfi.Pu.BacklightLevel
import Mfi.Pu.BacklightTables
import Mfi.Pu.ScanOrder
import Mfi.Pu.Brightness
import Mfi.Pu.Encoders
import Mfi.Pu.LumConv
import Mfi.Pu.LumFilter
import Mfi.Pu.Pwm
import Mfi.Pu.SigmaDelta
import Mfi.AmsI2c.Status
import Mfi.AmsI2c.Stretching
import Mfi.AmsI2c.Protocol
import Mfi.Tmds.Balance
import Mfi.Tmds.RoundTrip
import Mfi.PanelBus.Samples
import Mfi.Firmware.OnBridge
import Mfi.Firmware.Outputs
import Mfi.Firmware.HotPlug
